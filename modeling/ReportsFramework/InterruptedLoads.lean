/-
The paginated loading of a window into a temporary table that may hold records already,
interrupted after any of its pages: what is written so far are the newest records of the
window.
-/
import ReportsFramework.Pagination

namespace ReportsFramework

open Windows

namespace ApiPages

variable {ρ κ : Type*} [DecidableEq κ]

/-- The loop, interrupted behind the given number of pages unless it ends before, with the
number of the pages that are left then. -/
def loopFor (api : ApiPages ρ κ) (start : ℤ) (limit : ℕ) : ℕ → Loop api → Loop api × Option ℕ
  | 0, s => (s, none)
  | pages + 1, s =>
      match api.iterate start limit s with
      | (s', true) => api.loopFor start limit pages s'
      | (s', false) => (s', some pages)

end ApiPages

namespace PageSource

variable {ρ κ : Type*}

/-- A table after the records of `[start, stop]` have been written to it down to some
date; those dated `start` itself may be missing. -/
structure LoadedDownTo (src : PageSource ρ κ) (start stop low : ℤ)
    (before after : Sql.Table src.key) : Prop where
  kept {r} : r ∈ before.contents → r ∈ after.contents
  added {r} : r ∈ after.contents → r ∈ before.contents ∨
    r ∈ src.history ∧ start ≤ src.date r ∧ src.date r ≤ stop ∧
      (low < src.date r ∨ low ≤ start ∧ src.date r = start)
  reached {r} : r ∈ src.history → low < src.date r → start < src.date r → src.date r ≤ stop →
    r ∈ after.contents

/-- A load on its way.  Once the pages have come to `start`, only records dated `start` are
left. -/
structure Loading (src : PageSource ρ κ) (start stop : ℤ) (before : Sql.Table src.key)
    (s : ApiPages.Loop src.toApiPages) : Prop where
  pageEnd_le : s.pageEnd ≤ stop
  serial : s.serialRequestsCount = 0 ∨ src.page s.pageEnd ≠ []
  loaded : src.LoadedDownTo start stop start before s.table ∨
    src.LoadedDownTo start stop s.pageEnd before s.table ∧
      s.serialRequestsCountWithEndLessThanStart = 0 ∧
      s.count ≤ (window src.date s.pageEnd stop src.history).length

variable {src : PageSource ρ κ} {start stop low : ℤ} {limit : ℕ}
variable {before after : Sql.Table src.key}

theorem LoadedDownTo.refl (t : Sql.Table src.key) : src.LoadedDownTo start stop stop t t where
  kept := id
  added := .inl
  reached := by
    intro r _ hlow _ hstop
    omega

/-- Nothing is dated between the two dates. -/
theorem LoadedDownTo.lower (h : src.LoadedDownTo start stop low before after) {low' : ℤ}
    (hle : low' ≤ low)
    (hnone : ∀ r ∈ src.history, start < src.date r → low' < src.date r → low < src.date r) :
    src.LoadedDownTo start stop low' before after where
  kept := h.kept
  added := by
    intro r hr
    rcases h.added hr with hold | ⟨hmem, hstart, hstop, hlow | ⟨hlow, heq⟩⟩
    · exact .inl hold
    · exact .inr ⟨hmem, hstart, hstop, .inl (by omega)⟩
    · exact .inr ⟨hmem, hstart, hstop, .inr ⟨by omega, heq⟩⟩
  reached := by
    intro r hr hlow hstart hstop
    exact h.reached hr (hnone r hr hstart hlow) hstart hstop

variable [DecidableEq κ]

/-- Rows of the history replace nothing but themselves. -/
theorem mem_insertAll {t : Sql.Table src.key} {rows : List ρ}
    (ht : ∀ r ∈ t.contents, r ∈ src.history) (hrows : ∀ r ∈ rows, r ∈ src.history) {r : ρ} :
    r ∈ (t.insertAll rows).contents ↔ r ∈ t.contents ∨ r ∈ rows := by
  have hholds : src.Holds t t.contents := ⟨Iff.rfl, fun hr => ht _ hr⟩
  rw [(hholds.insertAll hrows).mem_iff, List.mem_append]

/-- Another page. -/
theorem LoadedDownTo.insertAll (h : src.LoadedDownTo start stop low before after)
    (hbefore : ∀ r ∈ before.contents, r ∈ src.history) {low' : ℤ} {rows : List ρ}
    (hle : low' ≤ low)
    (hrows : ∀ r ∈ rows, r ∈ src.history ∧ start ≤ src.date r ∧ src.date r ≤ stop ∧
      (low' < src.date r ∨ low' ≤ start ∧ src.date r = start))
    (hall : ∀ r ∈ src.history, low' < src.date r → start < src.date r → src.date r ≤ low →
      r ∈ rows) :
    src.LoadedDownTo start stop low' before (after.insertAll rows) := by
  have hafter : ∀ r ∈ after.contents, r ∈ src.history := by
    intro r hr
    rcases h.added hr with hold | hnew
    · exact hbefore r hold
    · exact hnew.1
  have hmem {r : ρ} := mem_insertAll (r := r) hafter fun r hr => (hrows r hr).1
  constructor
  · intro r hr
    exact hmem.mpr (.inl (h.kept hr))
  · intro r hr
    rcases hmem.mp hr with hold | hnew
    · rcases h.added hold with hbefore | ⟨hr, hstart, hstop, hlow | ⟨hlow, heq⟩⟩
      · exact .inl hbefore
      · exact .inr ⟨hr, hstart, hstop, .inl (by omega)⟩
      · exact .inr ⟨hr, hstart, hstop, .inr ⟨by omega, heq⟩⟩
    · exact .inr (hrows r hnew)
  · intro r hr hlow hstart hstop
    apply hmem.mpr
    by_cases hold : low < src.date r
    · exact .inl (h.reached hr hold hstart hstop)
    · exact .inr (hall r hr hlow hstart (by omega))

omit [DecidableEq κ] in
/-- All that is after `start` has been reached. -/
theorem LoadedDownTo.atStart (h : src.LoadedDownTo start stop low before after)
    (hnone : ∀ r ∈ src.history, start < src.date r → src.date r ≤ stop → low < src.date r) :
    src.LoadedDownTo start stop start before after where
  kept := h.kept
  added := by
    intro r hr
    rcases h.added hr with hold | ⟨hmem, hstart, hstop, _⟩
    · exact .inl hold
    · exact .inr ⟨hmem, hstart, hstop, by omega⟩
  reached := by
    intro r hr _ hstart hstop
    exact h.reached hr (hnone r hr hstart hstop) hstart hstop

/-- The records of a page that are in range. -/
def inRange (src : PageSource ρ κ) (start e : ℤ) (lastItem : ρ) : List ρ :=
  if src.date lastItem ≤ start then (src.page e).filter (start ≤ src.date ·) else src.page e

section InRange

omit [DecidableEq κ]

variable {e : ℤ} {lastItem r : ρ}

theorem inRange_of_page (hlast : (src.page e).getLast? = some lastItem)
    (hr : r ∈ src.inRange start e lastItem) : r ∈ src.page e ∧ start ≤ src.date r := by
  unfold inRange at hr
  split_ifs at hr with hpast
  · obtain ⟨hpage, hstart⟩ := List.mem_filter.mp hr
    exact ⟨hpage, of_decide_eq_true hstart⟩
  · have hle := (newestFirst_page e).getLast_le hlast hr
    exact ⟨hr, by omega⟩

theorem mem_inRange (hr : r ∈ src.page e) (hstart : start < src.date r) :
    r ∈ src.inRange start e lastItem := by
  unfold inRange
  split_ifs
  · exact List.mem_filter.mpr ⟨hr, decide_eq_true (Int.le_of_lt hstart)⟩
  · exact hr

theorem length_inRange_le (src : PageSource ρ κ) (start e : ℤ) (lastItem : ρ) :
    (src.inRange start e lastItem).length ≤ (src.page e).length := by
  unfold inRange
  split_ifs
  · exact List.length_filter_le _ _
  · exact le_rfl

end InRange

namespace Loading

variable {s s' : ApiPages.Loop src.toApiPages} {again : Bool}

omit [DecidableEq κ] in
/-- What is loaded and the page behind it are no more than the history. -/
theorem length_add_page_le (src : PageSource ρ κ) (stop e : ℤ) :
    (window src.date e stop src.history).length + (src.page e).length ≤ src.history.length := by
  have hsplit := List.length_eq_length_filter_add (l := src.history) (fun r => e < src.date r)
  rw [hsplit]
  apply Nat.add_le_add
  · apply length_filter_le
    intro r _ hr
    simp only [decide_eq_true_eq] at hr ⊢
    exact hr.1
  · unfold ApiPages.page
    cases src.nextPage e with
    | none =>
        apply length_filter_le
        intro r _ hr
        simpa using hr
    | some n =>
        apply length_filter_le
        intro r _ hr
        simp only [decide_eq_true_eq] at hr
        simpa using hr.2

section Load

variable {lastItem : ρ}

omit [DecidableEq κ] in
/-- The limit does not cut the page of a load that has written the window so far. -/
theorem take_inRange (hlimit : src.history.length < limit)
    (hcount : s.count ≤ (window src.date s.pageEnd stop src.history).length) :
    (src.inRange start s.pageEnd lastItem).take (limit - s.count) =
      src.inRange start s.pageEnd lastItem := by
  apply List.take_of_length_le
  have hlength := src.length_inRange_le start s.pageEnd lastItem
  have hroom := length_add_page_le src stop s.pageEnd
  omega

omit [DecidableEq κ] in
theorem of_mem_inRange (h : src.Loading start stop before s)
    (hlast : (src.page s.pageEnd).getLast? = some lastItem) {r : ρ}
    (hr : r ∈ src.inRange start s.pageEnd lastItem) :
    r ∈ src.history ∧ start ≤ src.date r ∧ src.date r ≤ stop := by
  obtain ⟨hpage, hstart⟩ := inRange_of_page hlast hr
  obtain ⟨hmem, hend, _⟩ := mem_page.mp hpage
  exact ⟨hmem, hstart, Int.le_trans hend h.pageEnd_le⟩

/-- Once all that is after `start` is there, it remains so. -/
theorem load_done (h : src.Loading start stop before s) (hwindow : start < stop)
    (hs : src.load start limit s (src.page s.pageEnd) (src.nextPage s.pageEnd) lastItem =
      (s', again))
    (hloaded : src.LoadedDownTo start stop start before
      (s.table.insertAll ((src.inRange start s.pageEnd lastItem).take (limit - s.count)))) :
    (again = true → src.Loading start stop before s') ∧
      (again = false → src.LoadedDownTo start stop start before s'.table) := by
  unfold ApiPages.load at hs
  simp only [take_of_cut] at hs
  obtain ⟨rfl, hagain⟩ := Prod.mk.inj hs
  refine ⟨fun htrue => ⟨?_, .inl rfl, .inl hloaded⟩, fun _ => hloaded⟩
  have hpageEnd := h.pageEnd_le
  cases hnext : src.nextPage s.pageEnd with
  | none => simp [htrue, hnext] at hagain
  | some n =>
      have hlt := src.nextPage_lt hnext
      simp only [Option.any_some, Option.getD_some]
      split_ifs <;> omega

/-- The page of a load that has come to `start` before. -/
theorem insertAll_reached (h : src.Loading start stop before s)
    (hbefore : ∀ r ∈ before.contents, r ∈ src.history)
    (hlast : (src.page s.pageEnd).getLast? = some lastItem)
    (hreached : src.LoadedDownTo start stop start before s.table) (n : ℕ) :
    src.LoadedDownTo start stop start before
      (s.table.insertAll ((src.inRange start s.pageEnd lastItem).take n)) := by
  apply hreached.insertAll hbefore (Int.le_refl _)
  · intro r hr
    obtain ⟨hmem, hstart, hstop⟩ := h.of_mem_inRange hlast (List.mem_of_mem_take hr)
    exact ⟨hmem, hstart, hstop, by omega⟩
  · intro r _ hlow _ hle
    omega

/-- The page that brings a load to `start`. -/
theorem insertAll_last (h : src.Loading start stop before s)
    (hbefore : ∀ r ∈ before.contents, r ∈ src.history)
    (hlast : (src.page s.pageEnd).getLast? = some lastItem)
    (hloaded : src.LoadedDownTo start stop s.pageEnd before s.table) (hlow : start < s.pageEnd)
    (hnext : ∀ n, src.nextPage s.pageEnd = some n → n ≤ start) :
    src.LoadedDownTo start stop start before
      (s.table.insertAll (src.inRange start s.pageEnd lastItem)) := by
  apply hloaded.insertAll hbefore (Int.le_of_lt hlow)
  · intro r hr
    obtain ⟨hmem, hstart, hstop⟩ := h.of_mem_inRange hlast hr
    exact ⟨hmem, hstart, hstop, by omega⟩
  · intro r hr _ hstart hle
    apply mem_inRange _ hstart
    apply mem_page.mpr
    refine ⟨hr, hle, fun n hn => ?_⟩
    have hn := hnext n hn
    omega

/-- A page behind which the window goes on. -/
theorem insertAll_page (hpageEnd : s.pageEnd ≤ stop)
    (hbefore : ∀ r ∈ before.contents, r ∈ src.history)
    (hloaded : src.LoadedDownTo start stop s.pageEnd before s.table) {n : ℤ}
    (hnext : src.nextPage s.pageEnd = some n) (hlate : start < n) :
    src.LoadedDownTo start stop n before (s.table.insertAll (src.page s.pageEnd)) := by
  apply hloaded.insertAll hbefore (Int.le_of_lt (src.nextPage_lt hnext))
  · intro r hr
    obtain ⟨hmem, hend, hn⟩ := mem_page.mp hr
    have hn := hn n hnext
    exact ⟨hmem, by omega, by omega, .inl hn⟩
  · intro r hr hn _ hle
    rw [page_of_some hnext]
    exact mem_window.mpr ⟨hr, hn, hle⟩

/-- The window goes on behind the page. -/
theorem load_more (h : src.Loading start stop before s) (hlimit : src.history.length < limit)
    (hbefore : ∀ r ∈ before.contents, r ∈ src.history)
    (hlast : (src.page s.pageEnd).getLast? = some lastItem)
    (hloaded : src.LoadedDownTo start stop s.pageEnd before s.table)
    (hstraight : s.serialRequestsCountWithEndLessThanStart = 0)
    (hcount : s.count ≤ (window src.date s.pageEnd stop src.history).length) {n : ℤ}
    (hnext : src.nextPage s.pageEnd = some n) (hlate : start < n) :
    ∃ s', src.load start limit s (src.page s.pageEnd) (src.nextPage s.pageEnd) lastItem =
      (s', true) ∧ src.Loading start stop before s' := by
  have hlt := src.nextPage_lt hnext
  have hpos := nextPage_pos hnext
  have hpageEnd := h.pageEnd_le
  have hlastlate := (mem_page.mp (List.mem_of_getLast? hlast)).2.2 n hnext
  have hstartlate : start < src.date lastItem := Int.lt_trans hlate hlastlate
  have hpage := length_add_page_le src stop s.pageEnd
  have hroom : s.count + (src.page s.pageEnd).length < limit := by omega
  have hearly : (src.nextPage s.pageEnd).any (· ≤ start) = false := by
    rw [hnext]
    exact decide_eq_false (Int.not_le.mpr hlate)
  have hfst : (src.load start limit s (src.page s.pageEnd) (src.nextPage s.pageEnd) lastItem).1 =
      { pageEnd := n
        count := s.count + (src.page s.pageEnd).length
        serialRequestsCount := 0
        serialRequestsCountWithEndLessThanStart := 0
        table := s.table.insertAll (src.page s.pageEnd) } := by
    rw [load_fst _ hstartlate hroom, hearly, hstraight, hnext]
    rfl
  refine ⟨_, Prod.ext hfst ?_, ?_⟩
  · apply (load_again hstartlate).mpr
    refine ⟨hroom, ?_, by simp [hearly, hstraight]⟩
    rw [hnext]
    exact decide_eq_true (by omega)
  constructor
  · exact Int.le_trans (Int.le_of_lt hlt) hpageEnd
  · exact .inl rfl
  · refine .inr ⟨insertAll_page hpageEnd hbefore hloaded hnext hlate, rfl, ?_⟩
    have hsplit := src.window_append (Int.le_of_lt hlt) hpageEnd
    rw [← page_of_some hnext] at hsplit
    have hlength := congrArg List.length hsplit
    rw [List.length_append] at hlength
    simp only
    omega

end Load

/-- A page that has records. -/
theorem load (h : src.Loading start stop before s) (hlimit : src.history.length < limit)
    (hwindow : start < stop) (hbefore : ∀ r ∈ before.contents, r ∈ src.history) {lastItem : ρ}
    (hlast : (src.page s.pageEnd).getLast? = some lastItem)
    (hs : src.load start limit s (src.page s.pageEnd) (src.nextPage s.pageEnd) lastItem =
      (s', again)) :
    (again = true → src.Loading start stop before s') ∧
      (again = false → src.LoadedDownTo start stop start before s'.table) := by
  by_cases hreached : src.LoadedDownTo start stop start before s.table
  · exact h.load_done hwindow hs (h.insertAll_reached hbefore hlast hreached _)
  obtain ⟨hloaded, hstraight, hcount⟩ := h.loaded.resolve_left hreached
  have hlow : start < s.pageEnd := by
    by_contra hle
    apply hreached
    apply hloaded.atStart
    intro r _ hstart _
    omega
  by_cases hnext : ∃ n, src.nextPage s.pageEnd = some n ∧ start < n
  · obtain ⟨n, hnext, hlate⟩ := hnext
    obtain ⟨s'', hmore, hloading⟩ :=
      h.load_more hlimit hbefore hlast hloaded hstraight hcount hnext hlate
    obtain ⟨rfl, rfl⟩ := Prod.mk.inj (hmore.symm.trans hs)
    exact ⟨fun _ => hloading, fun hfalse => by cases hfalse⟩
  · apply h.load_done hwindow hs
    rw [take_inRange hlimit hcount]
    apply h.insertAll_last hbefore hlast hloaded hlow
    intro n hn
    by_contra hlate
    exact hnext ⟨n, hn, Int.not_le.mp hlate⟩

/-- One more page. -/
theorem iterate (h : src.Loading start stop before s) (hlimit : src.history.length < limit)
    (hwindow : start < stop) (hbefore : ∀ r ∈ before.contents, r ∈ src.history)
    (hs : src.iterate start limit s = (s', again)) :
    (again = true → src.Loading start stop before s') ∧
      (again = false → src.LoadedDownTo start stop start before s'.table) := by
  by_cases hpage : src.page s.pageEnd = []
  · have hserial := h.serial.resolve_right (not_not_intro hpage)
    cases hnext : src.nextPage s.pageEnd with
    | none =>
        rw [iterate_empty_done hpage hnext] at hs
        obtain ⟨hsame, rfl⟩ := Prod.mk.inj hs
        subst hsame
        refine ⟨fun hfalse => absurd hfalse Bool.false_ne_true, fun _ => ?_⟩
        rcases h.loaded with hreached | ⟨hloaded, _⟩
        · exact hreached
        · apply hloaded.atStart
          intro r hr _ _
          by_contra hle
          have hmem := mem_page.mpr ⟨hr, Int.not_lt.mp hle, by simp [hnext]⟩
          rw [hpage] at hmem
          cases hmem
    | some n =>
        have hlt := src.nextPage_lt hnext
        have hpageEnd := h.pageEnd_le
        rw [iterate_empty_more hpage hnext hserial] at hs
        obtain ⟨rfl, rfl⟩ := Prod.mk.inj hs
        refine ⟨fun _ => ⟨?_, .inr (src.no_empty_twice hnext hpage), ?_⟩,
          fun hfalse => absurd hfalse.symm Bool.false_ne_true⟩
        · simp only
          omega
        rcases h.loaded with hreached | ⟨hloaded, hstraight, hcount⟩
        · exact .inl hreached
        · refine .inr ⟨?_, hstraight, hcount.trans ?_⟩
          · apply hloaded.lower (Int.le_of_lt hlt)
            intro r hr _ hn
            by_contra hle
            have hmem : r ∈ src.page s.pageEnd := by
              rw [page_of_some hnext]
              exact mem_window.mpr ⟨hr, hn, Int.not_lt.mp hle⟩
            rw [hpage] at hmem
            cases hmem
          · apply length_filter_le
            intro r _ hr
            simp only [decide_eq_true_eq] at hr ⊢
            omega
  · obtain ⟨lastItem, hlast, _, hdate, _⟩ := exists_lastItem hpage
    rw [iterate_last hlast hdate] at hs
    exact h.load hlimit hwindow hbefore hlast hs

omit [DecidableEq κ] in
theorem exists_low (h : src.Loading start stop before s) :
    ∃ low, src.LoadedDownTo start stop low before s.table := by
  rcases h.loaded with hreached | ⟨hloaded, _⟩
  · exact ⟨start, hreached⟩
  · exact ⟨s.pageEnd, hloaded⟩

/-- The loop interrupted anywhere has the newest records of the window; the loop that has
ended has all after `start`. -/
theorem loopFor (h : src.Loading start stop before s) (hlimit : src.history.length < limit)
    (hwindow : start < stop) (hbefore : ∀ r ∈ before.contents, r ∈ src.history) (pages : ℕ) :
    (∃ low, src.LoadedDownTo start stop low before (src.loopFor start limit pages s).1.table) ∧
      ((src.loopFor start limit pages s).2.isSome = true →
        src.LoadedDownTo start stop start before (src.loopFor start limit pages s).1.table) := by
  induction pages generalizing s with
  | zero => exact ⟨h.exists_low, fun hsome => by cases hsome⟩
  | succ pages ih =>
      rw [ApiPages.loopFor]
      rcases hs : src.iterate start limit s with ⟨s', _ | _⟩
      · have hdone := (h.iterate hlimit hwindow hbefore hs).2 rfl
        exact ⟨⟨start, hdone⟩, fun _ => hdone⟩
      · exact ih ((h.iterate hlimit hwindow hbefore hs).1 rfl)

end Loading

section Again

variable {s s' : ApiPages.Loop src.toApiPages}

/-- An iteration reads nothing of the table, and writes records dated from `start` on. -/
theorem exists_rows (start : ℤ) (limit : ℕ) (s : ApiPages.Loop src.toApiPages) :
    ∃ rows, (∀ r ∈ rows, r ∈ src.history ∧ start ≤ src.date r) ∧
      ∀ t : Sql.Table src.key, src.iterate start limit { s with table := t } =
        ({ (src.iterate start limit s).1 with table := t.insertAll rows },
          (src.iterate start limit s).2) := by
  have hnothing : ∀ r ∈ ([] : List ρ), r ∈ src.history ∧ start ≤ src.date r := by
    intro r hr
    cases hr
  unfold ApiPages.iterate
  simp only
  split_ifs with hempty
  · exact ⟨[], hnothing, fun _ => rfl⟩
  cases hlast : (src.page s.pageEnd).getLast? with
  | none => exact ⟨[], hnothing, fun _ => rfl⟩
  | some lastItem =>
      simp only
      split_ifs with hdate
      · exact ⟨[], hnothing, fun _ => rfl⟩
      refine ⟨(src.inRange start s.pageEnd lastItem).take (limit - s.count), ?_, fun t => ?_⟩
      · intro r hr
        obtain ⟨hpage, hstart⟩ := inRange_of_page hlast (List.mem_of_mem_take hr)
        exact ⟨(mem_page.mp hpage).1, hstart⟩
      · unfold ApiPages.load
        simp only [take_of_cut]
        rfl

/-- A table after records dated from `start` on have been added. -/
structure AddedFrom (src : PageSource ρ κ) (start : ℤ) (before after : Sql.Table src.key) :
    Prop where
  kept {r} : r ∈ before.contents → r ∈ after.contents
  added {r} : r ∈ after.contents → r ∈ before.contents ∨ r ∈ src.history ∧ start ≤ src.date r

omit [DecidableEq κ] in
theorem AddedFrom.refl (t : Sql.Table src.key) : src.AddedFrom start t t := ⟨id, .inl⟩

omit [DecidableEq κ] in
theorem AddedFrom.trans {between : Sql.Table src.key} (h : src.AddedFrom start before between)
    (h' : src.AddedFrom start between after) : src.AddedFrom start before after where
  kept hr := h'.kept (h.kept hr)
  added hr := (h'.added hr).elim h.added .inr

omit [DecidableEq κ] in
theorem AddedFrom.known (h : src.AddedFrom start before after)
    (hbefore : ∀ r ∈ before.contents, r ∈ src.history) : ∀ r ∈ after.contents, r ∈ src.history :=
  fun r hr => (h.added hr).elim (hbefore r) And.left

theorem addedFrom_insertAll {rows : List ρ} (hbefore : ∀ r ∈ before.contents, r ∈ src.history)
    (hrows : ∀ r ∈ rows, r ∈ src.history ∧ start ≤ src.date r) :
    src.AddedFrom start before (before.insertAll rows) := by
  have hmem {r : ρ} := mem_insertAll (r := r) hbefore fun r hr => (hrows r hr).1
  exact ⟨fun hr => hmem.mpr (.inl hr), fun hr => (hmem.mp hr).imp_right (hrows _)⟩

/-- A page adds nothing that is dated before `start`, wherever the loop stands. -/
theorem addedFrom_iterate (hs : ∀ r ∈ s.table.contents, r ∈ src.history) :
    src.AddedFrom start s.table (src.iterate start limit s).1.table := by
  obtain ⟨rows, hrows, hiterate⟩ := src.exists_rows start limit s
  have htable : (src.iterate start limit s).1.table = s.table.insertAll rows :=
    congrArg (·.1.table) (hiterate s.table)
  rw [htable]
  exact addedFrom_insertAll hs hrows

theorem addedFrom_loopFor (pages : ℕ) (hs : ∀ r ∈ s.table.contents, r ∈ src.history) :
    src.AddedFrom start s.table (src.loopFor start limit pages s).1.table := by
  induction pages generalizing s with
  | zero => exact .refl _
  | succ pages ih =>
      have hpage : src.AddedFrom start s.table (src.iterate start limit s).1.table :=
        addedFrom_iterate hs
      rw [ApiPages.loopFor]
      rcases hiterate : src.iterate start limit s with ⟨s', _ | _⟩
      · rw [hiterate] at hpage
        exact hpage
      · rw [hiterate] at hpage
        exact hpage.trans (ih (hpage.known hs))

/-- Another load of a window into a table, or into one that has more, adds nothing, however
far it goes. -/
def Exhausted (src : PageSource ρ κ) (start stop : ℤ) (limit : ℕ) (t : Sql.Table src.key) :
    Prop :=
  ∀ t' : Sql.Table src.key, (∀ r ∈ t'.contents, r ∈ src.history) →
    (∀ r ∈ t.contents, r ∈ t'.contents) → ∀ pages,
      ∀ r ∈ (src.loopFor start limit pages ⟨stop, 0, 0, 0, t'⟩).1.table.contents, r ∈ t'.contents

theorem Exhausted.mono {t t' : Sql.Table src.key} (h : src.Exhausted start stop limit t)
    (hkept : ∀ r ∈ t.contents, r ∈ t'.contents) : src.Exhausted start stop limit t' :=
  fun t'' hknown hkept' => h t'' hknown fun r hr => hkept' r (hkept r hr)

/-- What the first page writes is in the table that the loop comes to. -/
theorem kept_of_loopFor (pages : ℕ) (hs : ∀ r ∈ s.table.contents, r ∈ src.history) :
    ∀ r ∈ (src.iterate start limit s).1.table.contents,
      r ∈ (src.loopFor start limit (pages + 1) s).1.table.contents := by
  have hpage : src.AddedFrom start s.table (src.iterate start limit s).1.table :=
    addedFrom_iterate hs
  intro r hr
  rw [ApiPages.loopFor]
  rcases hiterate : src.iterate start limit s with ⟨s', _ | _⟩ <;> rw [hiterate] at hpage hr
  · exact hr
  · exact (addedFrom_loopFor pages (hpage.known hs)).kept hr

/-- A loop that has ended writes nothing new when it is run once more, however far. -/
theorem loopFor_again {pages left : ℕ} (h : src.loopFor start limit pages s = (s', some left))
    (hs : ∀ r ∈ s.table.contents, r ∈ src.history) {t : Sql.Table src.key}
    (ht : ∀ r ∈ t.contents, r ∈ src.history) (hkept : ∀ r ∈ s'.table.contents, r ∈ t.contents)
    (pages' : ℕ) :
    ∀ r ∈ (src.loopFor start limit pages' { s with table := t }).1.table.contents,
      r ∈ t.contents := by
  induction pages generalizing s t pages' with
  | zero => cases h
  | succ pages ih =>
      obtain ⟨rows, hrows, hiterate⟩ := src.exists_rows start limit s
      have htable : (src.iterate start limit s).1.table = s.table.insertAll rows :=
        congrArg (·.1.table) (hiterate s.table)
      have hpage : src.AddedFrom start s.table (src.iterate start limit s).1.table :=
        addedFrom_iterate hs
      have hwritten : ∀ r ∈ rows, r ∈ t.contents := by
        intro r hr
        have hmem := kept_of_loopFor pages hs r
          (htable ▸ (mem_insertAll hs fun r hr => (hrows r hr).1).mpr (.inr hr))
        rw [h] at hmem
        exact hkept r hmem
      have hsame {r : ρ} : r ∈ (t.insertAll rows).contents ↔ r ∈ t.contents := by
        rw [mem_insertAll ht fun r hr => (hrows r hr).1]
        exact ⟨fun hr => hr.elim id (hwritten r), .inl⟩
      cases pages' with
      | zero => exact fun r hr => hr
      | succ pages' =>
          rw [ApiPages.loopFor] at h
          rw [ApiPages.loopFor, hiterate t]
          rcases hnext : src.iterate start limit s with ⟨s₁, _ | _⟩ <;> rw [hnext] at h hpage
          · exact fun r hr => hsame.mp hr
          · intro r hr
            apply hsame.mp
            refine ih h (hpage.known hs) (fun r hr => ht r (hsame.mp hr)) ?_ pages' r hr
            exact fun r hr => hsame.mpr (hkept r hr)

/-- A window that has been loaded down to its start is exhausted. -/
theorem exhausted_of_loopFor {t : Sql.Table src.key} {pages left : ℕ}
    (ht : ∀ r ∈ t.contents, r ∈ src.history)
    (h : src.loopFor start limit pages ⟨stop, 0, 0, 0, t⟩ = (s', some left)) :
    src.Exhausted start stop limit s'.table :=
  fun _ hknown hkept => loopFor_again h ht hknown hkept

end Again

end PageSource

end ReportsFramework
