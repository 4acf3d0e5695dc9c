/-
The paginated loading of a collection, `_insertApiDataArrObjTypeToDb`.  The API is asked
page after page, each ending where the one before began; what is in range is inserted
into the temporary table.
-/
import Mathlib.Data.List.Nodup
import Mathlib.Data.List.Perm.Basic
import ReportsFramework.SqlTable
import ReportsFramework.Windows

namespace ReportsFramework

open Windows

/-- The API of a collection: the records, newest first, and where the page asked with an
end begins. -/
structure ApiPages (ρ κ : Type*) where
  date : ρ → ℤ
  /-- The fields of the unique index. -/
  key : ρ → Option κ
  history : List ρ
  nextPage : ℤ → Option ℤ

namespace ApiPages

variable {ρ κ : Type*}

/-- The page asked with end `e`. -/
def page (api : ApiPages ρ κ) (e : ℤ) : List ρ :=
  match api.nextPage e with
  | some n => window api.date n e api.history
  | none => api.history.filter fun r => api.date r ≤ e

/-- The records in `[start, stop]`, cut by the limit. -/
def wanted (api : ApiPages ρ κ) (start stop : ℤ) (limit : ℕ) : List ρ :=
  (window api.date (start - 1) stop api.history).take limit

/-- Following `nextPage` from an end, a page is reached that begins right after `start`. -/
inductive EndsAt (api : ApiPages ρ κ) (start : ℤ) : ℤ → Prop
  | here {e} (hnext : api.nextPage e = some start) : EndsAt api start e
  | older {e n} (hnext : api.nextPage e = some n) (hlt : start < n) (h : EndsAt api start n) :
      EndsAt api start e

/-- The records dated at one time. -/
def dated (api : ApiPages ρ κ) (t : ℤ) : List ρ :=
  window api.date (t - 1) t api.history

/-- If a page begins right after `start` and there are records both at `start` and one
millisecond later, the limit is reached before them, or the page asked with `start + 1`
goes past `start` and there is room for the later records to be counted twice. -/
def NotRefetched (api : ApiPages ρ κ) (start stop : ℤ) (limit : ℕ) : Prop :=
  api.EndsAt start stop → api.dated start ≠ [] → api.dated (start + 1) ≠ [] →
    limit ≤ (window api.date start stop api.history).length ∨
      api.nextPage (start + 1) ≠ some start ∧
        (window api.date start stop api.history).length + (api.dated (start + 1)).length +
          (api.dated start).length ≤ limit

/-- What the loop carries along. -/
structure Loop (api : ApiPages ρ κ) where
  pageEnd : ℤ
  count : ℕ
  serialRequestsCount : ℕ
  serialRequestsCountWithEndLessThanStart : ℕ
  table : Sql.Table api.key

variable [DecidableEq κ]

/-- The rest of an iteration that has got records. -/
def load (api : ApiPages ρ κ) (start : ℤ) (limit : ℕ) (s : Loop api) (res : List ρ)
    (nextPage : Option ℤ) (lastItem : ρ) : Loop api × Bool :=
  let currTime := api.date lastItem
  let inRange := if currTime ≤ start then res.filter (start ≤ api.date ·) else res
  let isCut := limit < s.count + inRange.length
  let rows := if isCut then inRange.take (limit - s.count) else inRange
  let isEndLessThanStart := nextPage.any (· ≤ start)
  let serial := s.serialRequestsCountWithEndLessThanStart + if isEndLessThanStart then 1 else 0
  let isAllData := currTime ≤ start || isCut || 1 < serial
  ({ pageEnd := if isEndLessThanStart then start + 1 else nextPage.getD 0
     count := s.count + rows.length
     serialRequestsCount := 0
     serialRequestsCountWithEndLessThanStart := serial
     table := s.table.insertAll rows },
    !(isAllData || limit ≤ s.count + rows.length || !nextPage.any (· ≠ 0)))

/-- One iteration.  The second component says whether another one follows. -/
def iterate (api : ApiPages ρ κ) (start : ℤ) (limit : ℕ) (s : Loop api) : Loop api × Bool :=
  let res := api.page s.pageEnd
  let nextPage := api.nextPage s.pageEnd
  if res.isEmpty && nextPage.any (· ≠ 0) && s.serialRequestsCount < 1 then
    ({ s with
      pageEnd := nextPage.getD 0
      serialRequestsCount := s.serialRequestsCount + 1 }, true)
  else
    match res.getLast? with
    | none => (s, false)
    | some lastItem =>
        if api.date lastItem = 0 then (s, false)
        else api.load start limit s res nextPage lastItem

/-- The loop, as long as the fuel lasts. -/
def loop (api : ApiPages ρ κ) (start : ℤ) (limit : ℕ) : ℕ → Loop api → Option (Sql.Table api.key)
  | 0, _ => none
  | fuel + 1, s =>
      match api.iterate start limit s with
      | (s', true) => api.loop start limit fuel s'
      | (s', false) => some s'.table

/-- `_insertApiDataArrObjTypeToDb` into an empty temporary table. -/
def insertApiData (api : ApiPages ρ κ) (start stop : ℤ) (limit fuel : ℕ) :
    Option (Sql.Table api.key) :=
  api.loop start limit fuel ⟨stop, 0, 0, 0, .empty⟩

/-- The loop terminates, with exactly the wanted records in the table. -/
def Complete (api : ApiPages ρ κ) (start stop : ℤ) (limit : ℕ) : Prop :=
  ∃ fuel table, api.insertApiData start stop limit fuel = some table ∧
    table.contents.Perm (api.wanted start stop limit)

end ApiPages

/-- What the API promises: dates are timestamps in milliseconds, the unique index tells
the records apart, there is a next page exactly while older records remain, and of two
pages in a row one has records. -/
structure PageSource (ρ κ : Type*) extends ApiPages ρ κ where
  newestFirst : Windows.NewestFirst date history
  dated_pos {r} : r ∈ history → 0 < date r
  keyed {r} : r ∈ history → (key r).isSome = true
  distinct : (history.map key).Nodup
  nextPage_lt {e n} : nextPage e = some n → n < e
  older {e n} : nextPage e = some n → ∃ r ∈ history, date r ≤ n
  no_empty_twice {e n} : nextPage e = some n → toApiPages.page e = [] → toApiPages.page n ≠ []

namespace PageSource

variable {ρ κ : Type*} (src : PageSource ρ κ)

section Rows

theorem key_inj {r r' : ρ} (hr : r ∈ src.history) (hr' : r' ∈ src.history)
    (h : src.key r = src.key r') : r = r' :=
  List.inj_on_of_nodup_map src.distinct hr hr' h

theorem nodup_history : src.history.Nodup :=
  src.distinct.of_map

/-- The rows of the table are those of a list of records. -/
structure Holds (t : Sql.Table src.key) (rows : List ρ) : Prop where
  mem_iff {r} : r ∈ t.contents ↔ r ∈ rows
  stored {r} : r ∈ rows → r ∈ src.history

variable {src} {t : Sql.Table src.key} {rows new : List ρ}

theorem Holds.congr (h : src.Holds t rows) {rows' : List ρ}
    (hrows : ∀ r, r ∈ rows ↔ r ∈ rows') : src.Holds t rows' where
  mem_iff := h.mem_iff.trans (hrows _)
  stored hr := h.stored ((hrows _).mpr hr)

theorem Holds.insertAll [DecidableEq κ] (h : src.Holds t rows) (hnew : ∀ r ∈ new, r ∈ src.history) :
    src.Holds (t.insertAll new) (rows ++ new) where
  mem_iff := by
    intro r
    rw [Sql.Table.contents_insertAll, List.mem_append, List.mem_append, List.mem_filter, h.mem_iff]
    constructor
    · rintro (⟨hr, _⟩ | hr)
      · exact .inl hr
      · exact .inr (Sql.Table.mem_of_mem_latest hr)
    · intro hr
      -- a row that is replaced is replaced by itself
      have hlatest : r ∈ new → r ∈ Sql.Table.latest src.key new := by
        intro hmem
        rcases Sql.Table.exists_latest src.key hmem with hkept | ⟨r', hkept, _, hkey⟩
        · exact hkept
        · have hr' := hnew r' (Sql.Table.mem_of_mem_latest hkept)
          rwa [src.key_inj (hnew r hmem) hr' hkey]
      by_cases hmem : r ∈ new
      · exact .inr (hlatest hmem)
      · left
        have hold := hr.resolve_right hmem
        refine ⟨hold, decide_eq_true ?_⟩
        rintro r' hr' ⟨_, hkey⟩
        exact hmem (src.key_inj (h.stored hold) (hnew r' hr') hkey ▸ hr')
  stored := by
    intro r hr
    rcases List.mem_append.mp hr with hr | hr
    · exact h.stored hr
    · exact hnew r hr

theorem nodup_contents (h : src.Holds t rows) : t.contents.Nodup := by
  apply List.Pairwise.imp_of_mem _ t.pairwise_contents
  rintro r r' hr _ hconflict rfl
  exact hconflict ⟨src.keyed (h.stored (h.mem_iff.mp hr)), rfl⟩

theorem Holds.perm_iff (h : src.Holds t rows) {wanted : List ρ} (hnodup : wanted.Nodup) :
    t.contents.Perm wanted ↔ ∀ r, r ∈ rows ↔ r ∈ wanted := by
  rw [List.perm_ext_iff_of_nodup (nodup_contents h) hnodup]
  simp only [h.mem_iff]

end Rows

section Pages

variable {src} {e n start : ℤ}

theorem page_of_some (h : src.nextPage e = some n) :
    src.page e = window src.date n e src.history := by
  rw [ApiPages.page, h]

theorem mem_page {r : ρ} :
    r ∈ src.page e ↔ r ∈ src.history ∧ src.date r ≤ e ∧
      ∀ n, src.nextPage e = some n → n < src.date r := by
  unfold ApiPages.page
  cases hnext : src.nextPage e with
  | none => simp
  | some n =>
      simp only [mem_window, Option.some.injEq, forall_eq']
      exact and_congr_right fun _ => and_comm

theorem newestFirst_page (e : ℤ) : Windows.NewestFirst src.date (src.page e) := by
  unfold ApiPages.page
  cases src.nextPage e <;> exact src.newestFirst.filter _

theorem nextPage_pos (h : src.nextPage e = some n) : 0 < n := by
  obtain ⟨r, hr, hle⟩ := src.older h
  have hpos := src.dated_pos hr
  omega

/-- What is in range of a page that goes past `start`. -/
theorem filter_page {start : ℤ} (h : ∀ n, src.nextPage e = some n → n < start) :
    (src.page e).filter (start ≤ src.date ·) = window src.date (start - 1) e src.history := by
  unfold ApiPages.page
  cases hnext : src.nextPage e with
  | none =>
      unfold window
      rw [List.filter_filter]
      apply List.filter_congr
      intro r _
      grind
  | some n =>
      have hlt := h n hnext
      unfold window
      rw [List.filter_filter]
      apply List.filter_congr
      intro r _
      grind

/-- The last item of a page. -/
theorem exists_lastItem (h : src.page e ≠ []) :
    ∃ lastItem, (src.page e).getLast? = some lastItem ∧ lastItem ∈ src.page e ∧
      src.date lastItem ≠ 0 ∧ ∀ r ∈ src.page e, src.date lastItem ≤ src.date r := by
  obtain ⟨lastItem, hlast⟩ := Option.ne_none_iff_exists'.mp (mt List.getLast?_eq_none_iff.mp h)
  have hmem := List.mem_of_getLast? hlast
  refine ⟨lastItem, hlast, hmem, ?_, fun r hr => (newestFirst_page e).getLast_le hlast hr⟩
  have hpos := src.dated_pos (mem_page.mp hmem).1
  omega

theorem window_append {a b c : ℤ} (hab : a ≤ b) (hbc : b ≤ c) :
    window src.date a c src.history =
      window src.date b c src.history ++ window src.date a b src.history :=
  src.newestFirst.window_append hab hbc

theorem stored_of_mem_window {a b : ℤ} {r : ρ} (h : r ∈ window src.date a b src.history) :
    r ∈ src.history :=
  (mem_window.mp h).1

theorem lt_of_endsAt (h : src.EndsAt start e) : start < e := by
  induction h with
  | here hnext => exact src.nextPage_lt hnext
  | older hnext hlt _ _ =>
      have hle := src.nextPage_lt hnext
      omega

/-- No page begins right after `start` from here on. -/
theorem not_endsAt_of_none (h : src.nextPage e = none) : ¬ src.EndsAt start e := by
  rintro (hnext | ⟨hnext, _, _⟩)
  · rw [h] at hnext
    cases hnext
  · rw [h] at hnext
    cases hnext

theorem not_endsAt_of_lt (h : src.nextPage e = some n) (hlt : n < start) :
    ¬ src.EndsAt start e := by
  rintro (hnext | ⟨hnext, hlater, _⟩)
  · rw [h] at hnext
    cases hnext
    omega
  · rw [h] at hnext
    cases hnext
    omega

/-- A page whose last item is at or before `start` goes past it. -/
theorem nextPage_lt_of_past {r : ρ} (hr : r ∈ src.page e) (hpast : src.date r ≤ start) (n : ℤ)
    (h : src.nextPage e = some n) : n < start := by
  have hlt := (mem_page.mp hr).2.2 n h
  omega

theorem not_endsAt_of_past {r : ρ} (hr : r ∈ src.page e) (hpast : src.date r ≤ start) :
    ¬ src.EndsAt start e := by
  cases hnext : src.nextPage e with
  | none => exact not_endsAt_of_none hnext
  | some n => exact not_endsAt_of_lt hnext (nextPage_lt_of_past hr hpast n hnext)

end Pages

section Runs

variable [DecidableEq κ] {src} {start : ℤ} {limit : ℕ} {s s' : ApiPages.Loop src.toApiPages}

/-- The loop ends, with a table that has the property. -/
def Returns (src : PageSource ρ κ) (start : ℤ) (limit : ℕ) (s : ApiPages.Loop src.toApiPages)
    (P : Sql.Table src.key → Prop) : Prop :=
  ∃ fuel t, src.loop start limit fuel s = some t ∧ P t

variable {P : Sql.Table src.key → Prop}

theorem Returns.more (hs : src.iterate start limit s = (s', true))
    (h : src.Returns start limit s' P) : src.Returns start limit s P := by
  obtain ⟨fuel, t, hrun, hP⟩ := h
  refine ⟨fuel + 1, t, ?_, hP⟩
  rw [ApiPages.loop, hs]
  exact hrun

theorem Returns.done (hs : src.iterate start limit s = (s', false)) (h : P s'.table) :
    src.Returns start limit s P := by
  refine ⟨1, s'.table, ?_, h⟩
  rw [ApiPages.loop, hs]

/-- What the loop returns does not depend on the fuel. -/
theorem loop_unique {fuel fuel' : ℕ} {t t' : Sql.Table src.key}
    (h : src.loop start limit fuel s = some t) (h' : src.loop start limit fuel' s = some t') :
    t = t' := by
  induction fuel generalizing fuel' s with
  | zero => cases h
  | succ fuel ih =>
      cases fuel' with
      | zero => cases h'
      | succ fuel' =>
          rw [ApiPages.loop] at h h'
          rcases hs : src.iterate start limit s with ⟨next, again⟩
          rw [hs] at h h'
          cases again with
          | true => exact ih h h'
          | false => exact Option.some.inj (h.symm.trans h')

theorem iterate_empty_more {n : ℤ} (hpage : src.page s.pageEnd = [])
    (hnext : src.nextPage s.pageEnd = some n) (hserial : s.serialRequestsCount = 0) :
    src.iterate start limit s =
      ({ s with pageEnd := n, serialRequestsCount := s.serialRequestsCount + 1 }, true) := by
  have hpos : n ≠ 0 := (Int.ne_of_lt (nextPage_pos hnext)).symm
  simp [ApiPages.iterate, hpage, hnext, hserial, hpos]

theorem iterate_empty_done (hpage : src.page s.pageEnd = [])
    (hnext : src.nextPage s.pageEnd = none) :
    src.iterate start limit s = (s, false) := by
  simp [ApiPages.iterate, hpage, hnext]

theorem take_of_cut {rows : List ρ} {count : ℕ} :
    (if limit < count + rows.length then rows.take (limit - count) else rows) =
      rows.take (limit - count) := by
  split_ifs with hcut
  · rfl
  · exact (List.take_of_length_le (by omega)).symm

theorem iterate_last {lastItem : ρ} (hlast : (src.page s.pageEnd).getLast? = some lastItem)
    (hdate : src.date lastItem ≠ 0) :
    src.iterate start limit s =
      src.load start limit s (src.page s.pageEnd) (src.nextPage s.pageEnd) lastItem := by
  have hpage : src.page s.pageEnd ≠ [] := by
    intro hnil
    simp [hnil] at hlast
  simp [ApiPages.iterate, hlast, hdate, hpage]

variable {res : List ρ} {nextPage : Option ℤ} {lastItem : ρ}

/-- A page that goes to `start` is the last. -/
theorem load_past (limit : ℕ) (s : ApiPages.Loop src.toApiPages) (res : List ρ)
    (nextPage : Option ℤ) (hpast : src.date lastItem ≤ start) :
    ∃ s', src.load start limit s res nextPage lastItem = (s', false) ∧
      s'.table = s.table.insertAll
        ((res.filter (start ≤ src.date ·)).take (limit - s.count)) := by
  refine ⟨(src.load start limit s res nextPage lastItem).1, Prod.ext rfl ?_, ?_⟩
  · simp [ApiPages.load, hpast]
  · simp only [ApiPages.load, hpast, if_true, take_of_cut]

/-- Another iteration follows a page after `start` while there is room, a next page, and
no second turn back. -/
theorem load_again (hlate : start < src.date lastItem) :
    (src.load start limit s res nextPage lastItem).2 = true ↔
      s.count + res.length < limit ∧ nextPage.any (· ≠ 0) = true ∧
        s.serialRequestsCountWithEndLessThanStart +
          (if nextPage.any (· ≤ start) = true then 1 else 0) ≤ 1 := by
  simp only [ApiPages.load, Int.not_le.mpr hlate, if_false, take_of_cut, Bool.not_eq_true',
    Bool.or_eq_false_iff, decide_eq_false_iff_not, Bool.not_eq_false', List.length_take,
    not_false_eq_true, true_and]
  constructor
  · rintro ⟨⟨⟨hcut, hserial⟩, hroom⟩, hnext⟩
    exact ⟨by omega, hnext, by omega⟩
  · rintro ⟨hroom, hnext, hserial⟩
    exact ⟨⟨⟨by omega, by omega⟩, by omega⟩, hnext⟩

theorem load_fst (nextPage : Option ℤ) (hlate : start < src.date lastItem)
    (hroom : s.count + res.length < limit) :
    (src.load start limit s res nextPage lastItem).1 =
      { pageEnd := if nextPage.any (· ≤ start) then start + 1 else nextPage.getD 0
        count := s.count + res.length
        serialRequestsCount := 0
        serialRequestsCountWithEndLessThanStart := s.serialRequestsCountWithEndLessThanStart +
          if nextPage.any (· ≤ start) then 1 else 0
        table := s.table.insertAll res } := by
  have hcut : ¬ limit < s.count + res.length := by omega
  simp only [ApiPages.load, Int.not_le.mpr hlate, if_false, hcut]

/-- A page after `start` is the last otherwise. -/
theorem load_late {limit : ℕ} {s : ApiPages.Loop src.toApiPages} {res : List ρ}
    {nextPage : Option ℤ} (hlate : start < src.date lastItem)
    (hstop : ¬ (s.count + res.length < limit ∧ nextPage.any (· ≠ 0) = true ∧
      s.serialRequestsCountWithEndLessThanStart +
        (if nextPage.any (· ≤ start) = true then 1 else 0) ≤ 1)) :
    ∃ s', src.load start limit s res nextPage lastItem = (s', false) ∧
      s'.table = s.table.insertAll (res.take (limit - s.count)) := by
  refine ⟨(src.load start limit s res nextPage lastItem).1, Prod.ext rfl ?_, ?_⟩
  · rw [← load_again hlate] at hstop
    simpa using hstop
  · simp only [ApiPages.load, Int.not_le.mpr hlate, if_false, take_of_cut]

end Runs

section Course

variable {start stop : ℤ} {limit : ℕ}

/-- What the loop is to leave. -/
def Verdict (start stop : ℤ) (limit : ℕ) (t : Sql.Table src.key) : Prop :=
  t.contents.Perm (src.wanted start stop limit) ↔ src.NotRefetched start stop limit

/-- The loop on its way down to `start`: it has all records after the end of the next
page. -/
structure Descending (start stop : ℤ) (limit : ℕ) (s : ApiPages.Loop src.toApiPages) : Prop where
  before : s.pageEnd ≤ stop
  straight : s.serialRequestsCountWithEndLessThanStart = 0
  count : s.count = (window src.date s.pageEnd stop src.history).length
  holds : src.Holds s.table (window src.date s.pageEnd stop src.history)
  inRange {r} : r ∈ window src.date s.pageEnd stop src.history → start ≤ src.date r
  room : s.count < limit ∨ s.count = 0
  serial : s.serialRequestsCount = 0 ∨
    s.serialRequestsCount = 1 ∧ src.page s.pageEnd ≠ []
  asked : src.EndsAt start s.pageEnd → src.EndsAt start stop
  followed : src.EndsAt start stop → src.EndsAt start s.pageEnd ∨ src.dated (start + 1) = []

/-- The loop asks once more for what is after `start`: it has all records after `start`,
and those at `start` may be missing only if a page began right after it. -/
structure AtStart (start stop : ℤ) (limit : ℕ) (s : ApiPages.Loop src.toApiPages) : Prop where
  pageEnd : s.pageEnd = start + 1
  before : start + 1 ≤ stop
  once : s.serialRequestsCountWithEndLessThanStart = 1
  serial : s.serialRequestsCount = 0
  count : s.count = (window src.date start stop src.history).length
  room : s.count < limit
  holds : src.Holds s.table (window src.date start stop src.history)
  reason : src.EndsAt start stop ∨ src.dated start = []

variable {src} {s : ApiPages.Loop src.toApiPages} {e n : ℤ}

namespace Descending

theorem wanted_eq (h : src.Descending start stop limit s) :
    src.wanted start stop limit = window src.date s.pageEnd stop src.history ++
      (window src.date (start - 1) s.pageEnd src.history).take (limit - s.count) := by
  have hsplit : window src.date (start - 1) stop src.history =
      window src.date s.pageEnd stop src.history ++
        window src.date (start - 1) s.pageEnd src.history := by
    by_cases hlt : s.pageEnd < start - 1
    · have hnil : window src.date (start - 1) s.pageEnd src.history = [] := by
        rw [window_eq_nil]
        intro r _ hr
        omega
      rw [hnil, List.append_nil]
      apply List.filter_congr
      intro r hr
      have hin : s.pageEnd < src.date r ∧ src.date r ≤ stop → start ≤ src.date r :=
        fun hin => h.inRange (mem_window.mpr ⟨hr, hin⟩)
      simp only [decide_eq_decide]
      omega
    · exact window_append (by omega) h.before
  have hle : (window src.date s.pageEnd stop src.history).length ≤ limit := by
    rw [← h.count]
    rcases h.room with hlt | hzero
    · omega
    · omega
  rw [ApiPages.wanted, hsplit, List.take_append, List.take_of_length_le hle, h.count]

/-- What holds if no page begins right after `start` from here on. -/
theorem notRefetched_of_not_endsAt (h : src.Descending start stop limit s)
    (hends : ¬ src.EndsAt start s.pageEnd) : src.NotRefetched start stop limit := by
  intro hstop _ hafter
  rcases h.followed hstop with hhere | hnone
  · exact absurd hhere hends
  · exact absurd hnone hafter

theorem length_le_window (h : src.Descending start stop limit s)
    (hlate : ∀ r ∈ src.page s.pageEnd, start < src.date r) (hle : start ≤ s.pageEnd) :
    s.count + (src.page s.pageEnd).length ≤ (window src.date start stop src.history).length := by
  have hlength : (src.page s.pageEnd).length ≤
      (window src.date start s.pageEnd src.history).length := by
    unfold ApiPages.page at hlate ⊢
    cases hnext : src.nextPage s.pageEnd with
    | none =>
        rw [hnext] at hlate
        apply length_filter_le
        intro r hr hle
        have hr' := hlate r (List.mem_filter.mpr ⟨hr, hle⟩)
        grind
    | some n =>
        rw [hnext] at hlate
        apply length_filter_le
        intro r hr hle
        have hr' := hlate r (List.mem_filter.mpr ⟨hr, hle⟩)
        grind
  rw [window_append hle h.before, List.length_append, h.count]
  omega

/-- An empty page leads to the next one. -/
theorem empty_more (h : src.Descending start stop limit s) (hpage : src.page s.pageEnd = [])
    (hnext : src.nextPage s.pageEnd = some n) (hserial : s.serialRequestsCount = 0) :
    src.Descending start stop limit
      { s with pageEnd := n, serialRequestsCount := s.serialRequestsCount + 1 } := by
  have hlt := src.nextPage_lt hnext
  have hbefore := h.before
  have hwindow : window src.date n stop src.history =
      window src.date s.pageEnd stop src.history := by
    rw [window_append (by omega) h.before, ← page_of_some hnext, hpage, List.append_nil]
  constructor
  · show n ≤ stop
    omega
  · exact h.straight
  · rw [hwindow]
    exact h.count
  · rw [hwindow]
    exact h.holds
  · intro r hr
    rw [hwindow] at hr
    exact h.inRange hr
  · exact h.room
  · exact .inr ⟨by simp [hserial], src.no_empty_twice hnext hpage⟩
  · intro hends
    exact h.asked (.older hnext (lt_of_endsAt hends) hends)
  · intro hstop
    rcases h.followed hstop with (hhere | ⟨hother, hlater, hends⟩) | hnone
    · right
      rw [hnext] at hhere
      cases hhere
      have hnil : window src.date start s.pageEnd src.history = [] := by
        rw [← page_of_some hnext, hpage]
      rw [ApiPages.dated, window_eq_nil]
      rw [window_eq_nil] at hnil
      intro r hr hafter
      have hno := hnil r hr (by omega)
      omega
    · left
      rw [hnext] at hother
      cases hother
      exact hends
    · exact .inr hnone

/-- A page after `start` with more to come leads to the next one. -/
theorem load_on (h : src.Descending start stop limit s) (hlt : start < n)
    (hnext : src.nextPage s.pageEnd = some n)
    (hroom : s.count + (src.page s.pageEnd).length < limit) {t : Sql.Table src.key}
    (ht : src.Holds t (window src.date s.pageEnd stop src.history ++ src.page s.pageEnd)) :
    src.Descending start stop limit
      { pageEnd := n
        count := s.count + (src.page s.pageEnd).length
        serialRequestsCount := 0
        serialRequestsCountWithEndLessThanStart := s.serialRequestsCountWithEndLessThanStart
        table := t } := by
  have hle := src.nextPage_lt hnext
  have hbefore := h.before
  have hwindow : window src.date n stop src.history =
      window src.date s.pageEnd stop src.history ++ src.page s.pageEnd := by
    rw [page_of_some hnext]
    exact window_append (by omega) h.before
  constructor
  · show n ≤ stop
    omega
  · exact h.straight
  · rw [hwindow, List.length_append, h.count]
  · rw [hwindow]
    exact ht
  · intro r hr
    have hafter := (mem_window.mp hr).2.1
    simp only at hafter
    omega
  · exact .inl hroom
  · exact .inl rfl
  · intro hends
    exact h.asked (.older hnext hlt hends)
  · intro hstop
    rcases h.followed hstop with (hhere | ⟨hother, hlater, hends⟩) | hnone
    · rw [hnext] at hhere
      cases hhere
      exact absurd hlt (Int.lt_irrefl _)
    · left
      rw [hnext] at hother
      cases hother
      exact hends
    · exact .inr hnone

/-- A page after `start` that goes to it or past it leads to one more request. -/
theorem load_reset (h : src.Descending start stop limit s)
    (hlate : ∀ r ∈ src.page s.pageEnd, start < src.date r) (hne : src.page s.pageEnd ≠ [])
    (hle : n ≤ start) (hnext : src.nextPage s.pageEnd = some n)
    (hroom : s.count + (src.page s.pageEnd).length < limit) {t : Sql.Table src.key}
    (ht : src.Holds t (window src.date s.pageEnd stop src.history ++ src.page s.pageEnd)) :
    src.AtStart start stop limit
      { pageEnd := start + 1
        count := s.count + (src.page s.pageEnd).length
        serialRequestsCount := 0
        serialRequestsCountWithEndLessThanStart := 1
        table := t } := by
  obtain ⟨r, hr⟩ := List.exists_mem_of_ne_nil _ hne
  have hend := (mem_page.mp hr).2.1
  have hafter := hlate r hr
  have hbefore := h.before
  have hpage : window src.date start s.pageEnd src.history = src.page s.pageEnd := by
    rw [page_of_some hnext] at hlate ⊢
    apply List.filter_congr
    intro r hr
    have hin := fun hin => hlate r (mem_window.mpr ⟨hr, hin⟩)
    simp only [decide_eq_decide]
    constructor
    · omega
    · intro hwin
      exact ⟨hin hwin, hwin.2⟩
  have hwindow : window src.date start stop src.history =
      window src.date s.pageEnd stop src.history ++ src.page s.pageEnd := by
    rw [← hpage]
    exact window_append (by omega) h.before
  constructor
  · rfl
  · omega
  · rfl
  · rfl
  · rw [hwindow, List.length_append, h.count]
  · exact hroom
  · rw [hwindow]
    exact ht
  · by_cases heq : n = start
    · left
      subst heq
      exact h.asked (.here hnext)
    · right
      rw [ApiPages.dated, window_eq_nil]
      intro r hr hnear hupto
      rw [page_of_some hnext] at hlate
      have hno := hlate r (mem_window.mpr ⟨hr, by omega, by omega⟩)
      omega

variable [DecidableEq κ]

/-- The loop ends with what is wanted. -/
theorem verdict (h : src.Descending start stop limit s) {new : List ρ}
    (hnew : new = (window src.date (start - 1) s.pageEnd src.history).take (limit - s.count))
    (hfine : src.NotRefetched start stop limit) :
    src.Verdict start stop limit (s.table.insertAll new) := by
  have hstored : ∀ r ∈ new, r ∈ src.history := by
    intro r hr
    rw [hnew] at hr
    exact stored_of_mem_window (List.mem_of_mem_take hr)
  have hholds := h.holds.insertAll hstored
  have hnodup : (src.wanted start stop limit).Nodup :=
    (src.nodup_history.filter _).sublist (List.take_sublist _ _)
  refine iff_of_true ((hholds.perm_iff hnodup).mpr ?_) hfine
  intro r
  rw [h.wanted_eq, hnew]

end Descending

namespace AtStart

theorem wanted_eq (h : src.AtStart start stop limit s) :
    src.wanted start stop limit =
      window src.date start stop src.history ++ (src.dated start).take (limit - s.count) := by
  have hbefore := h.before
  have hle : (window src.date start stop src.history).length ≤ limit := by
    rw [← h.count]
    exact Nat.le_of_lt h.room
  rw [ApiPages.wanted, window_append (show start - 1 ≤ start by omega) (by omega),
    List.take_append, List.take_of_length_le hle, h.count]
  rfl

theorem notRefetched_iff (h : src.AtStart start stop limit s) :
    src.NotRefetched start stop limit ↔ src.dated start = [] ∨ src.dated (start + 1) = [] ∨
      src.nextPage (start + 1) ≠ some start ∧
        s.count + (src.dated (start + 1)).length + (src.dated start).length ≤ limit := by
  have hroom := h.room
  rw [h.count] at hroom ⊢
  constructor
  · intro hnot
    by_cases hnow : src.dated start = []
    · exact .inl hnow
    by_cases hlater : src.dated (start + 1) = []
    · exact .inr (.inl hlater)
    rcases hnot (h.reason.resolve_right hnow) hnow hlater with hfull | hroom'
    · omega
    · exact .inr (.inr hroom')
  · rintro (hnow | hlater | hroom') _ hne hne'
    · exact absurd hnow hne
    · exact absurd hlater hne'
    · exact .inr hroom'

/-- The records one millisecond later are there already. -/
theorem mem_of_dated (h : src.AtStart start stop limit s) {r : ρ}
    (hr : r ∈ src.dated (start + 1)) : r ∈ window src.date start stop src.history := by
  have hbefore := h.before
  obtain ⟨hmem, hafter, hupto⟩ := mem_window.mp hr
  exact mem_window.mpr ⟨hmem, by omega, by omega⟩

theorem not_mem_of_dated {r : ρ} (hr : r ∈ src.dated start) :
    r ∉ window src.date start stop src.history := by
  intro hwin
  have hafter := (mem_window.mp hwin).2.1
  have hupto := (mem_window.mp hr).2.2
  omega

/-- What was there already does not matter. -/
theorem mem_append_iff (h : src.AtStart start stop limit s) {rows : List ρ}
    (hrows : ∀ r ∈ rows, r ∈ src.dated (start + 1)) (new : List ρ) {r : ρ} :
    r ∈ window src.date start stop src.history ++ (rows ++ new) ↔
      r ∈ window src.date start stop src.history ++ new := by
  simp only [List.mem_append]
  constructor
  · rintro (hr | hr | hr)
    · exact .inl hr
    · exact .inl (h.mem_of_dated (hrows r hr))
    · exact .inr hr
  · rintro (hr | hr)
    · exact .inl hr
    · exact .inr (.inr hr)

/-- The records after `start` are counted twice. -/
theorem refetched_iff (h : src.AtStart start stop limit s)
    (hnext : src.nextPage (start + 1) ≠ some start) :
    (∀ r, r ∈ window src.date start stop src.history ++
        (src.dated (start + 1) ++ src.dated start).take (limit - s.count) ↔
      r ∈ window src.date start stop src.history ++ (src.dated start).take (limit - s.count)) ↔
      src.NotRefetched start stop limit := by
  have hroom := h.room
  rw [h.notRefetched_iff, List.take_append]
  have hlater : ∀ r ∈ (src.dated (start + 1)).take (limit - s.count), r ∈ src.dated (start + 1) :=
    fun _ => List.mem_of_mem_take
  constructor
  · intro hall
    by_contra hnot
    obtain ⟨hnow, hafter, hsum⟩ :
        src.dated start ≠ [] ∧ src.dated (start + 1) ≠ [] ∧
          ¬ s.count + (src.dated (start + 1)).length + (src.dated start).length ≤ limit := by
      simp only [not_or] at hnot
      exact ⟨hnot.1, hnot.2.1, fun hle => hnot.2.2 ⟨hnext, hle⟩⟩
    have hpos := List.length_pos_iff.mpr hnow
    have hpos' := List.length_pos_iff.mpr hafter
    have hnodup : (src.dated start).Nodup := src.nodup_history.filter _
    obtain ⟨r, hin, hout⟩ := exists_mem_take hnodup
      (i := limit - s.count - (src.dated (start + 1)).length) (j := limit - s.count)
      (by omega) (by omega)
    have hmem := (h.mem_append_iff hlater _).mp ((hall r).mpr (List.mem_append_right _ hin))
    rcases List.mem_append.mp hmem with hwin | hnew
    · exact not_mem_of_dated (List.mem_of_mem_take hin) hwin
    · exact hout hnew
  · intro hfine r
    rw [h.mem_append_iff hlater _]
    rcases hfine with hnow | hafter | ⟨_, hsum⟩
    · simp [hnow]
    · simp [hafter]
    · rw [List.take_of_length_le (by omega), List.take_of_length_le (by omega)]

variable [DecidableEq κ]

/-- The loop ends after some rows. -/
theorem verdict (h : src.AtStart start stop limit s) {new : List ρ}
    (hstored : ∀ r ∈ new, r ∈ src.history)
    (hfine : (∀ r, r ∈ window src.date start stop src.history ++ new ↔
      r ∈ window src.date start stop src.history ++ (src.dated start).take (limit - s.count)) ↔
      src.NotRefetched start stop limit) :
    src.Verdict start stop limit (s.table.insertAll new) := by
  have hholds := h.holds.insertAll hstored
  have hnodup : (src.wanted start stop limit).Nodup :=
    (src.nodup_history.filter _).sublist (List.take_sublist _ _)
  unfold Verdict
  rw [hholds.perm_iff hnodup, h.wanted_eq]
  exact hfine

variable {P : Sql.Table src.key → Prop}

/-- Nothing is left after `start`. -/
theorem returns_of_empty (h : src.AtStart start stop limit s) (hpage : src.page (start + 1) = []) :
    src.Returns start limit s (src.Verdict start stop limit) := by
  have hpage' : src.page s.pageEnd = [] := by rw [h.pageEnd, hpage]
  have hnone : ∀ r ∈ src.history, (∀ n, src.nextPage (start + 1) = some n → n < src.date r) →
      ¬ src.date r ≤ start + 1 := by
    intro r hr hnext hle
    have hmem := mem_page.mpr ⟨hr, hle, hnext⟩
    rw [hpage] at hmem
    cases hmem
  have hlater : src.dated (start + 1) = [] := by
    rw [ApiPages.dated, window_eq_nil]
    intro r hr hafter
    apply hnone r hr
    intro n hnext
    have hlt := src.nextPage_lt hnext
    omega
  have hfine := h.notRefetched_iff.mpr (.inr (.inl hlater))
  cases hnext : src.nextPage (start + 1) with
  | none =>
      have hnow : src.dated start = [] := by
        rw [ApiPages.dated, window_eq_nil]
        intro r hr hafter hle
        refine hnone r hr ?_ (by omega)
        simp [hnext]
      apply Returns.done (iterate_empty_done hpage' (by rw [h.pageEnd, hnext]))
      exact h.verdict (List.forall_mem_nil _) (iff_of_true (by simp [hnow]) hfine)
  | some n =>
      have hlt := src.nextPage_lt hnext
      apply Returns.more
        (iterate_empty_more hpage' (by rw [h.pageEnd, hnext]) h.serial)
      obtain ⟨lastItem, hlast, hmem, hdate, _⟩ :=
        exists_lastItem (src.no_empty_twice hnext hpage)
      have hupto := (mem_page.mp hmem).2.1
      have hpast : src.date lastItem ≤ start := by omega
      have hbelow : ∀ m, src.nextPage n = some m → m < start := by
        intro m hm
        have hlt' := src.nextPage_lt hm
        omega
      have hrows : (src.page n).filter (start ≤ src.date ·) = src.dated start := by
        rw [filter_page hbelow]
        apply List.filter_congr
        intro r hr
        have hno := hnone r hr
        simp only [hnext, Option.some.injEq, forall_eq'] at hno
        simp only [decide_eq_decide]
        omega
      obtain ⟨s', hload, htable⟩ := load_past limit
        { s with pageEnd := n, serialRequestsCount := s.serialRequestsCount + 1 }
        (src.page n) (src.nextPage n) hpast
      apply Returns.done ((iterate_last hlast hdate).trans hload)
      rw [htable, hrows]
      apply h.verdict
      · intro r hr
        exact stored_of_mem_window (List.mem_of_mem_take hr)
      · exact iff_of_true (fun _ => Iff.rfl) hfine

theorem returns_of_past (h : src.AtStart start stop limit s) {lastItem : ρ}
    (hlast : (src.page s.pageEnd).getLast? = some lastItem) (hdate : src.date lastItem ≠ 0)
    (hmem : lastItem ∈ src.page (start + 1)) (hpast : src.date lastItem ≤ start) :
    src.Returns start limit s (src.Verdict start stop limit) := by
  have hbelow := nextPage_lt_of_past hmem hpast
  have hrows : (src.page s.pageEnd).filter (start ≤ src.date ·) =
      src.dated (start + 1) ++ src.dated start := by
    rw [h.pageEnd, filter_page hbelow,
      window_append (show start - 1 ≤ start by omega) (show start ≤ start + 1 by omega)]
    simp [ApiPages.dated]
  obtain ⟨s', hload, htable⟩ := load_past limit s (src.page s.pageEnd)
    (src.nextPage s.pageEnd) hpast
  apply Returns.done ((iterate_last hlast hdate).trans hload)
  rw [htable, hrows]
  apply h.verdict
  · intro r hr
    rcases List.mem_append.mp (List.mem_of_mem_take hr) with hr | hr
    · exact stored_of_mem_window hr
    · exact stored_of_mem_window hr
  · apply h.refetched_iff
    intro hnext
    exact Int.lt_irrefl _ (hbelow start hnext)

theorem returns_of_late (h : src.AtStart start stop limit s) {lastItem : ρ}
    (hlast : (src.page s.pageEnd).getLast? = some lastItem) (hdate : src.date lastItem ≠ 0)
    (hmem : lastItem ∈ src.page (start + 1)) (hlate : start < src.date lastItem)
    (holdest : ∀ r ∈ src.page (start + 1), src.date lastItem ≤ src.date r) :
    src.Returns start limit s (src.Verdict start stop limit) := by
  have hroom := h.room
  have hpage : ∀ r ∈ src.page (start + 1), r ∈ src.dated (start + 1) := by
    intro r hr
    obtain ⟨hhistory, hupto, _⟩ := mem_page.mp hr
    have hle := holdest r hr
    exact mem_window.mpr ⟨hhistory, by omega, hupto⟩
  have hstop : ¬ (s.count + (src.page s.pageEnd).length < limit ∧
      (src.nextPage s.pageEnd).any (· ≠ 0) = true ∧
      s.serialRequestsCountWithEndLessThanStart +
        (if (src.nextPage s.pageEnd).any (· ≤ start) = true then 1 else 0) ≤ 1) := by
    rintro ⟨_, hsome, hserial⟩
    cases hnext : src.nextPage s.pageEnd with
    | none => simp [hnext] at hsome
    | some n =>
        have hlt := src.nextPage_lt hnext
        rw [h.pageEnd] at hlt
        rw [hnext, h.once, if_pos (by simpa using Int.lt_add_one_iff.mp hlt)] at hserial
        omega
  obtain ⟨s', hload, htable⟩ := load_late hlate hstop
  apply Returns.done ((iterate_last hlast hdate).trans hload)
  rw [htable, h.pageEnd]
  have hnew : ∀ r ∈ (src.page (start + 1)).take (limit - s.count), r ∈ src.dated (start + 1) :=
    fun r hr => hpage r (List.mem_of_mem_take hr)
  apply h.verdict
  · intro r hr
    exact stored_of_mem_window (hnew r hr)
  · rw [h.notRefetched_iff]
    constructor
    · intro hall
      left
      by_contra hnow
      obtain ⟨r, rest, hcons⟩ := List.exists_cons_of_ne_nil hnow
      have hin : r ∈ (src.dated start).take (limit - s.count) := by
        rw [hcons, List.take_cons (by omega)]
        exact List.mem_cons_self
      have hwin := (h.mem_append_iff hnew []).mp
        (by simpa using (hall r).mpr (List.mem_append_right _ hin))
      rw [List.append_nil] at hwin
      exact not_mem_of_dated (List.mem_of_mem_take hin) hwin
    · intro hfine
      have hnow : src.dated start = [] := by
        rcases hfine with hnow | hafter | ⟨hnext, _⟩
        · exact hnow
        · have hd := hpage lastItem hmem
          rw [hafter] at hd
          cases hd
        · rw [ApiPages.dated, window_eq_nil]
          intro r hr hnear hupto
          have hr' : r ∈ src.page (start + 1) := by
            apply mem_page.mpr
            refine ⟨hr, by omega, ?_⟩
            intro n hn
            have hlt := src.nextPage_lt hn
            have hne : n ≠ start := by
              rintro rfl
              exact hnext hn
            omega
          have hle := holdest r hr'
          omega
      intro r
      rw [hnow, List.take_nil]
      have hiff := h.mem_append_iff hnew [] (r := r)
      rwa [List.append_nil] at hiff

/-- The second request for what is after `start` ends the loop. -/
theorem returns (h : src.AtStart start stop limit s) :
    src.Returns start limit s (src.Verdict start stop limit) := by
  by_cases hpage : src.page (start + 1) = []
  · exact h.returns_of_empty hpage
  obtain ⟨lastItem, hlast, hmem, hdate, holdest⟩ := exists_lastItem hpage
  rw [← h.pageEnd] at hlast
  by_cases hpast : src.date lastItem ≤ start
  · exact h.returns_of_past hlast hdate hmem hpast
  · exact h.returns_of_late hlast hdate hmem (by omega) holdest

end AtStart

namespace Descending

/-- A page after `start` is the front of what is missing. -/
theorem exists_rest (hlate : ∀ r ∈ src.page e, start < src.date r) :
    ∃ rest, window src.date (start - 1) e src.history = src.page e ++ rest := by
  by_cases hbelow : ∀ n, src.nextPage e = some n → n < start
  · refine ⟨[], ?_⟩
    rw [← filter_page hbelow, List.append_nil, List.filter_eq_self]
    intro r hr
    have hr' := hlate r hr
    simp only [decide_eq_true_eq]
    omega
  · simp only [not_forall] at hbelow
    obtain ⟨n, hnext, hge⟩ := hbelow
    have hlt := src.nextPage_lt hnext
    refine ⟨window src.date (start - 1) n src.history, ?_⟩
    rw [page_of_some hnext]
    exact window_append (by omega) (by omega)

variable [DecidableEq κ]

theorem returns_of_none (h : src.Descending start stop limit s) (hpage : src.page s.pageEnd = [])
    (hnext : src.nextPage s.pageEnd = none) :
    src.Returns start limit s (src.Verdict start stop limit) := by
  have hnil : window src.date (start - 1) s.pageEnd src.history = [] := by
    rw [← filter_page (by simp [hnext]), hpage]
    rfl
  apply Returns.done (iterate_empty_done hpage hnext)
  exact h.verdict (by rw [hnil, List.take_nil])
    (h.notRefetched_of_not_endsAt (not_endsAt_of_none hnext))

theorem returns_of_past (h : src.Descending start stop limit s) {lastItem : ρ}
    (hlast : (src.page s.pageEnd).getLast? = some lastItem) (hdate : src.date lastItem ≠ 0)
    (hmem : lastItem ∈ src.page s.pageEnd) (hpast : src.date lastItem ≤ start) :
    src.Returns start limit s (src.Verdict start stop limit) := by
  obtain ⟨s', hload, htable⟩ := load_past limit s (src.page s.pageEnd)
    (src.nextPage s.pageEnd) hpast
  apply Returns.done ((iterate_last hlast hdate).trans hload)
  rw [htable]
  apply h.verdict
  · rw [filter_page (nextPage_lt_of_past hmem hpast)]
  · exact h.notRefetched_of_not_endsAt (not_endsAt_of_past hmem hpast)

/-- A page after `start` ends the loop if it fills the limit or has no next page. -/
theorem returns_of_late (h : src.Descending start stop limit s) {lastItem : ρ}
    (hlast : (src.page s.pageEnd).getLast? = some lastItem) (hdate : src.date lastItem ≠ 0)
    (hlastlate : start < src.date lastItem)
    (hlate : ∀ r ∈ src.page s.pageEnd, start < src.date r) (hle : start ≤ s.pageEnd)
    (hstop : limit ≤ s.count + (src.page s.pageEnd).length ∨ src.nextPage s.pageEnd = none) :
    src.Returns start limit s (src.Verdict start stop limit) := by
  have hnot : ¬ (s.count + (src.page s.pageEnd).length < limit ∧
      (src.nextPage s.pageEnd).any (· ≠ 0) = true ∧
      s.serialRequestsCountWithEndLessThanStart +
        (if (src.nextPage s.pageEnd).any (· ≤ start) = true then 1 else 0) ≤ 1) := by
    rintro ⟨hroom, hnext, _⟩
    rcases hstop with hfull | hnone
    · omega
    · simp [hnone] at hnext
  obtain ⟨s', hload, htable⟩ := load_late hlastlate hnot
  apply Returns.done ((iterate_last hlast hdate).trans hload)
  rw [htable]
  obtain ⟨rest, hrest⟩ := exists_rest hlate
  apply h.verdict
  · rcases hstop with hfull | hnone
    · rw [hrest, List.take_append_of_le_length (by omega)]
    · rw [← filter_page (by simp [hnone]), List.filter_eq_self.mpr]
      intro r hr
      have hr' := hlate r hr
      simp only [decide_eq_true_eq]
      omega
  · rcases hstop with hfull | hnone
    · have hlength := h.length_le_window hlate hle
      intro _ _ _
      left
      omega
    · exact h.notRefetched_of_not_endsAt (not_endsAt_of_none hnone)

/-- The loop ends, with what is wanted or without. -/
theorem returns (h : src.Descending start stop limit s) :
    src.Returns start limit s (src.Verdict start stop limit) := by
  -- the end of the pages goes down, and of two empty pages there is only one
  generalize hm : 2 * (s.pageEnd - start).toNat + (1 - s.serialRequestsCount) = m
  induction m using Nat.strong_induction_on generalizing s with
  | _ m ih =>
      by_cases hpage : src.page s.pageEnd = []
      · cases hnext : src.nextPage s.pageEnd with
        | none => exact h.returns_of_none hpage hnext
        | some n =>
            have hlt := src.nextPage_lt hnext
            have hserial := h.serial.resolve_right fun hone => hone.2 hpage
            apply Returns.more (iterate_empty_more hpage hnext hserial)
            exact ih _ (by simp only [hserial] at hm ⊢; omega)
              (h.empty_more hpage hnext hserial) rfl
      obtain ⟨lastItem, hlast, hmem, hdate, holdest⟩ := exists_lastItem hpage
      by_cases hpast : src.date lastItem ≤ start
      · exact h.returns_of_past hlast hdate hmem hpast
      have hlate : ∀ r ∈ src.page s.pageEnd, start < src.date r := by
        intro r hr
        have hle := holdest r hr
        omega
      have hend := (mem_page.mp hmem).2.1
      by_cases hstop : limit ≤ s.count + (src.page s.pageEnd).length ∨
          src.nextPage s.pageEnd = none
      · exact h.returns_of_late hlast hdate (by omega) hlate (by omega) hstop
      simp only [not_or, Nat.not_le] at hstop
      obtain ⟨hroom, hsome⟩ := hstop
      obtain ⟨n, hnext⟩ := Option.ne_none_iff_exists'.mp hsome
      have hne : n ≠ 0 := (Int.ne_of_lt (nextPage_pos hnext)).symm
      have hstored : ∀ r ∈ src.page s.pageEnd, r ∈ src.history := fun r hr => (mem_page.mp hr).1
      have hholds := h.holds.insertAll hstored
      have hagain : (src.load start limit s (src.page s.pageEnd) (some n) lastItem).2 = true := by
        apply (load_again (by omega)).mpr
        refine ⟨hroom, by simpa using hne, ?_⟩
        rw [h.straight]
        split_ifs <;> omega
      have hiterate : src.iterate start limit s =
          ((src.load start limit s (src.page s.pageEnd) (some n) lastItem).1, true) := by
        rw [iterate_last hlast hdate, hnext]
        exact Prod.ext rfl hagain
      apply Returns.more hiterate
      rw [load_fst (some n) (by omega) hroom]
      have hlt := src.nextPage_lt hnext
      by_cases hon : start < n
      · have hnot : (some n).any (· ≤ start) = false := by simpa using hon
        simp only [hnot, Bool.false_eq_true, if_false, Option.getD_some]
        exact ih _ (by simp only; omega) (h.load_on hon hnext hroom hholds) rfl
      · have hyes : (some n).any (· ≤ start) = true := by simpa using hon
        simp only [hyes, if_true, h.straight]
        exact (h.load_reset hlate hpage (by omega) hnext hroom hholds).returns

end Descending

end Course

theorem descending_start (start stop : ℤ) (limit : ℕ) :
    src.Descending start stop limit ⟨stop, 0, 0, 0, .empty⟩ := by
  have hnil : window src.date stop stop src.history = [] := by
    rw [window_eq_nil]
    intro r _ hr
    omega
  constructor
  · exact Int.le_refl stop
  · rfl
  · rw [hnil]
    rfl
  · rw [hnil]
    exact ⟨Iff.rfl, fun h => absurd h List.not_mem_nil⟩
  · intro r hr
    rw [hnil] at hr
    cases hr
  · exact .inr rfl
  · exact .inl rfl
  · exact id
  · exact .inl

variable [DecidableEq κ]

/-- The loop terminates, and leaves exactly the records in range unless it counts some of
them twice. -/
theorem complete_iff (start stop : ℤ) (limit : ℕ) :
    src.Complete start stop limit ↔ src.NotRefetched start stop limit := by
  obtain ⟨fuel, t, hrun, hverdict⟩ := (src.descending_start start stop limit).returns
  refine Iff.trans ?_ hverdict
  constructor
  · rintro ⟨fuel', t', hrun', hperm⟩
    rwa [loop_unique hrun hrun']
  · intro hperm
    exact ⟨fuel, t, hrun, hperm⟩

namespace TurnedBackWitness

/-- Two records in two milliseconds, and pages that begin right after the older one. -/
def source : PageSource ℤ ℤ where
  date := id
  key := some
  history := [11, 10]
  nextPage e := if 10 < e then some 10 else none
  newestFirst := by
    unfold Windows.NewestFirst
    decide
  dated_pos {r} hr := (show ∀ r ∈ [(11 : ℤ), 10], 0 < r by decide) r hr
  keyed _ := rfl
  distinct := by decide
  nextPage_lt h := by
    split_ifs at h with hlt
    cases h
    exact hlt
  older h := by
    split_ifs at h
    cases h
    exact ⟨10, by decide, Int.le_refl 10⟩
  no_empty_twice h _ := by
    split_ifs at h
    cases h
    decide

/-- The record at `start` is not written. -/
theorem source_not_complete :
    ¬ ∀ (src : PageSource ℤ ℤ) (start stop : ℤ) (limit : ℕ), src.Complete start stop limit := by
  intro h
  obtain ⟨fuel, t, hrun, hperm⟩ := h source 10 20 100
  have hshort : ∃ t, source.insertApiData 10 20 100 2 = some t ∧ t.contents = [11] :=
    ⟨_, rfl, by decide⟩
  obtain ⟨t', hrun', hcontents⟩ := hshort
  have hsame := loop_unique hrun hrun'
  rw [hsame, hcontents] at hperm
  have hlength := hperm.length_eq
  exact absurd hlength (by decide)

end TurnedBackWitness

end PageSource

end ReportsFramework
