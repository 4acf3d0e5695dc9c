/-
The weekly regrouping of the wallet rows that the database splits at the turn of the year:
when it leaves the newest row of each ISO week, wallet type and currency.
-/
import Mathlib.Data.List.Nodup
import ReportsFramework.BalanceHistory

namespace ReportsFramework

namespace WeeklyRegroup

open UtcCalendar

/-- `strftime('%Y-%W')`: the year and the number of the week in it, where the days before
the first Monday are in week 0. -/
def dbWeek (mts : ℤ) : ℤ × ℤ :=
  (Moment.year mts, (Moment.dayOfYear mts + 7 - Moment.isoWeekday mts) / 7)

example : [1609286400000, 1609545600000, 1609718400000].map dbWeek =
    [(2020, 52), (2021, 0), (2021, 1)] := by decide

/-- The ISO week, by its start. -/
def isoWeekOf (mts : ℤ) : ℤ := getStartMtsByTimeframe mts .week

/-- What the database has at most one row of. -/
def dbKey (row : WalletRow) : String × String × ℤ × ℤ :=
  (row.type, row.currency, dbWeek row.mtsUpdate)

def isoKey (row : WalletRow) : String × String × ℤ :=
  (row.type, row.currency, isoWeekOf row.mtsUpdate)

section Calendar

variable {mts mts' : ℤ}

theorem isoWeekOf_eq (mts : ℤ) :
    isoWeekOf mts = weeks.start (Moment.dayOf mts) * Moment.msPerDay := by
  rw [isoWeekOf, getStartMtsByTimeframe_eq]
  rfl

theorem monday_eq_of_isoWeekOf_eq (h : isoWeekOf mts = isoWeekOf mts') :
    weeks.start (Moment.dayOf mts) = weeks.start (Moment.dayOf mts') := by
  rw [isoWeekOf_eq, isoWeekOf_eq] at h
  exact Int.eq_of_mul_eq_mul_right (by decide) h

theorem isoWeekOf_mono (h : mts ≤ mts') : isoWeekOf mts ≤ isoWeekOf mts' := by
  rw [isoWeekOf, isoWeekOf, getStartMtsByTimeframe_eq, getStartMtsByTimeframe_eq]
  exact (Timeframe.frames .week).start_mono h

theorem monday_eq (day : ℤ) : weeks.start day = day - weekday day := by
  unfold Frames.start weeks weekday
  dsimp only
  omega

theorem dayFromMonth_january (year : ℤ) : dayFromMonth (12 * year) = dayFromYear year := by
  unfold dayFromMonth daysBeforeMonth
  rw [show 12 * year / 12 = year by omega, show 12 * year % 12 = 0 by omega]
  simp

theorem dayFromMonth_december (year : ℤ) :
    dayFromMonth (12 * year + 11) = dayFromYear (year + 1) - 31 := by
  unfold dayFromMonth daysBeforeMonth
  rw [show (12 * year + 11) / 12 = year by omega, show (12 * year + 11) % 12 = 11 by omega]
  simp only [Int.reduceLT, Int.reduceMul, if_false]
  omega

theorem dayFromYear_mono {year year' : ℤ} (h : year ≤ year') :
    dayFromYear year ≤ dayFromYear year' :=
  years.boundary_mono h

/-- The week of the day has a first of January that it does not begin with. -/
theorem isAtTurnOfYear_iff (mts : ℤ) : isAtTurnOfYear mts = true ↔
    ∃ year, weeks.start (Moment.dayOf mts) < dayFromYear year ∧
      dayFromYear year ≤ weeks.start (Moment.dayOf mts) + 6 := by
  rw [monday_eq]
  unfold isAtTurnOfYear Moment.date Moment.isoWeekday Moment.month Moment.year
  simp only [Bool.or_eq_true, Bool.and_eq_true, decide_eq_true_eq]
  generalize Moment.dayOf mts = day
  have hday := yearFromDay_spec day
  have hyear := dayFromYear_succ (yearFromDay day)
  have hweekday : 0 ≤ weekday day ∧ weekday day < 7 := by
    unfold weekday
    omega
  have hjanuary := dayFromMonth_january (yearFromDay day)
  have hdecember := dayFromMonth_december (yearFromDay day)
  constructor
  · rintro (⟨⟨hmonth, _⟩, hlt⟩ | ⟨⟨hmonth, _⟩, hlt⟩)
    · rw [hmonth, Int.add_zero, hjanuary] at hlt
      exact ⟨yearFromDay day, by omega, by omega⟩
    · rw [hmonth, hdecember] at hlt
      exact ⟨yearFromDay day + 1, by omega, by omega⟩
  · rintro ⟨year, hlow, hhigh⟩
    rcases lt_or_ge (yearFromDay day) year with hlt | hle
    · -- the first of January of the next year is still to come in the week
      have hnext := dayFromYear_mono (Int.add_one_le_of_lt hlt)
      have hmonth : monthFromDay day = 11 := by
        unfold monthFromDay
        dsimp only
        split_ifs <;> omega
      right
      rw [hmonth, hdecember]
      omega
    · have hprev := dayFromYear_mono hle
      have hmonth : monthFromDay day = 0 := by
        unfold monthFromDay
        dsimp only
        split_ifs <;> omega
      left
      rw [hmonth, Int.add_zero, hjanuary]
      omega

theorem isAtTurnOfYear_congr (h : isoWeekOf mts = isoWeekOf mts') :
    isAtTurnOfYear mts = isAtTurnOfYear mts' := by
  rw [Bool.eq_iff_iff, isAtTurnOfYear_iff, isAtTurnOfYear_iff, monday_eq_of_isoWeekOf_eq h]

/-- A week within one year is one week of the database. -/
theorem dbWeek_eq (h : isoWeekOf mts = isoWeekOf mts') (hturn : isAtTurnOfYear mts = false) :
    dbWeek mts = dbWeek mts' := by
  have hmonday := monday_eq_of_isoWeekOf_eq h
  have hnot : ¬ ∃ year, weeks.start (Moment.dayOf mts) < dayFromYear year ∧
      dayFromYear year ≤ weeks.start (Moment.dayOf mts) + 6 := by
    rw [← isAtTurnOfYear_iff, hturn]
    exact Bool.false_ne_true
  rw [monday_eq] at hmonday hnot
  rw [monday_eq] at hmonday
  unfold dbWeek Moment.dayOfYear Moment.isoWeekday Moment.year
  have hday := yearFromDay_spec (Moment.dayOf mts)
  have hday' := yearFromDay_spec (Moment.dayOf mts')
  have hweekday : ∀ day, 0 ≤ weekday day ∧ weekday day < 7 := by
    intro day
    unfold weekday
    omega
  have hlow := hweekday (Moment.dayOf mts)
  have hlow' := hweekday (Moment.dayOf mts')
  have hyear : yearFromDay (Moment.dayOf mts) = yearFromDay (Moment.dayOf mts') := by
    by_contra hne
    rcases Int.lt_or_gt_of_ne hne with hlt | hgt
    · have hmono := dayFromYear_mono (Int.add_one_le_of_lt hlt)
      exact hnot ⟨yearFromDay (Moment.dayOf mts) + 1, by omega, by omega⟩
    · have hmono := dayFromYear_mono (Int.add_one_le_of_lt hgt)
      exact hnot ⟨yearFromDay (Moment.dayOf mts), by omega, by omega⟩
  rw [hyear]
  congr 2
  omega

end Calendar

section Runs

variable {rows run rest : List WalletRow} {row last : WalletRow}

/-- `unicGroup` behind a run of rows: the first of each currency. -/
def firstOfCurrencies (unicGroup run : List WalletRow) : List WalletRow :=
  run.foldl (fun unicGroup item =>
    if isInUnicGroup unicGroup item then unicGroup else unicGroup ++ [item]) unicGroup

theorem firstOfCurrencies_cons (unicGroup run : List WalletRow) (item : WalletRow) :
    firstOfCurrencies unicGroup (item :: run) =
      firstOfCurrencies (if isInUnicGroup unicGroup item then unicGroup else unicGroup ++ [item])
        run := rfl

theorem isInUnicGroup_iff (unicGroup : List WalletRow) (item : WalletRow) :
    isInUnicGroup unicGroup item = true ↔ ∃ w ∈ unicGroup, w.currency = item.currency := by
  simp [isInUnicGroup]

theorem reGroupLoop_accum (unicGroup accum rows : List WalletRow) :
    reGroupLoop unicGroup accum rows = accum ++ reGroupLoop unicGroup [] rows := by
  induction rows generalizing unicGroup accum with
  | nil => simp [reGroupLoop]
  | cons item rest ih =>
    rw [reGroupLoop, reGroupLoop]
    split_ifs
    · exact ih unicGroup accum
    · rw [ih [] (accum ++ _), ih [] ([] ++ _), List.nil_append, List.append_assoc]
    · exact ih _ accum
    · rw [ih [] (accum ++ unicGroup ++ [item]), ih [] ([] ++ unicGroup ++ [item]),
        List.nil_append, List.append_assoc, List.append_assoc, List.append_assoc]

/-- A run is flushed in front of a row that is not at the turn of a year. -/
theorem reGroupLoop_append_cons (hrun : ∀ x ∈ run, isAtTurnOfYear x.mtsUpdate = true)
    (hrow : isAtTurnOfYear row.mtsUpdate = false) (unicGroup : List WalletRow) :
    reGroupLoop unicGroup [] (run ++ row :: rest) =
      firstOfCurrencies unicGroup run ++ (row :: reGroupWeeklyDataGroups rest) := by
  induction run generalizing unicGroup with
  | nil =>
    rw [List.nil_append, reGroupLoop, if_neg (by simp [hrow]), reGroupLoop_accum,
      List.nil_append, List.append_assoc]
    rfl
  | cons item run ih =>
    obtain ⟨hitem, hrun⟩ := List.forall_mem_cons.mp hrun
    have hmore : (run ++ row :: rest).isEmpty = false := by cases run <;> rfl
    rw [List.cons_append, reGroupLoop, if_pos hitem, hmore, firstOfCurrencies_cons]
    by_cases hin : isInUnicGroup unicGroup item = true
    · rw [if_pos hin, if_pos hin, ih hrun]
    · rw [if_neg hin, if_neg hin, if_neg Bool.false_ne_true, ih hrun]

/-- A run at the end is flushed with its last row, unless this one is left out. -/
theorem reGroupLoop_concat (hrun : ∀ x ∈ run ++ [last], isAtTurnOfYear x.mtsUpdate = true)
    (unicGroup : List WalletRow) :
    reGroupLoop unicGroup [] (run ++ [last]) =
      if isInUnicGroup (firstOfCurrencies unicGroup run) last then []
      else firstOfCurrencies unicGroup (run ++ [last]) := by
  induction run generalizing unicGroup with
  | nil =>
    rw [List.nil_append, reGroupLoop, if_pos (hrun last (by simp))]
    simp only [firstOfCurrencies, List.foldl_nil, List.foldl_cons, List.isEmpty_nil, if_true,
      reGroupLoop, List.nil_append]
    split_ifs <;> rfl
  | cons item run ih =>
    rw [List.cons_append, List.forall_mem_cons] at hrun
    have hmore : (run ++ [last]).isEmpty = false := by cases run <;> rfl
    rw [List.cons_append, reGroupLoop, if_pos hrun.1, hmore, firstOfCurrencies_cons,
      firstOfCurrencies_cons]
    by_cases hin : isInUnicGroup unicGroup item = true
    · rw [if_pos hin, if_pos hin, ih hrun.2]
    · rw [if_neg hin, if_neg hin, if_neg Bool.false_ne_true, ih hrun.2]

theorem mem_of_mem_firstOfCurrencies {unicGroup run : List WalletRow} {r : WalletRow}
    (hr : r ∈ firstOfCurrencies unicGroup run) : r ∈ unicGroup ∨ r ∈ run := by
  induction run generalizing unicGroup with
  | nil => exact .inl hr
  | cons item run ih =>
    rw [firstOfCurrencies_cons] at hr
    rcases ih hr with hr | hr
    · split_ifs at hr
      · exact .inl hr
      · rcases List.mem_append.mp hr with hr | hr
        · exact .inl hr
        · exact .inr (by simp [List.mem_singleton.mp hr])
    · exact .inr (List.mem_cons_of_mem item hr)

theorem nodup_firstOfCurrencies {unicGroup : List WalletRow}
    (hunic : (unicGroup.map WalletRow.currency).Nodup) (run : List WalletRow) :
    ((firstOfCurrencies unicGroup run).map WalletRow.currency).Nodup := by
  induction run generalizing unicGroup with
  | nil => exact hunic
  | cons item run ih =>
    rw [firstOfCurrencies_cons]
    split_ifs with hin
    · exact ih hunic
    · apply ih
      rw [List.map_append, List.map_singleton]
      apply List.nodup_append.mpr
      refine ⟨hunic, List.nodup_singleton _, ?_⟩
      intro currency hmem currency' hmem' heq
      obtain ⟨w, hw, rfl⟩ := List.mem_map.mp hmem
      rw [List.mem_singleton.mp hmem'] at heq
      exact hin ((isInUnicGroup_iff _ _).mpr ⟨w, hw, heq⟩)

/-- Each currency of a run has its newest row among the first ones. -/
theorem exists_firstOfCurrencies {unicGroup run : List WalletRow}
    (hsorted : (unicGroup ++ run).Pairwise fun x y => y.mtsUpdate ≤ x.mtsUpdate)
    {x : WalletRow} (hx : x ∈ unicGroup ++ run) :
    ∃ r ∈ firstOfCurrencies unicGroup run, r.currency = x.currency ∧
      x.mtsUpdate ≤ r.mtsUpdate := by
  induction run generalizing unicGroup x with
  | nil =>
    rw [List.append_nil] at hx
    exact ⟨x, hx, rfl, Int.le_refl _⟩
  | cons item run ih =>
    rw [firstOfCurrencies_cons]
    split_ifs with hin
    · obtain ⟨w, hw, hcurrency⟩ := (isInUnicGroup_iff _ _).mp hin
      have hrest : (unicGroup ++ run).Pairwise fun x y => y.mtsUpdate ≤ x.mtsUpdate :=
        hsorted.sublist ((List.sublist_cons_self item run).append_left unicGroup)
      by_cases hitem : x = item
      · obtain ⟨r, hr, hrcurrency, hle⟩ := ih hrest (x := w) (List.mem_append_left run hw)
        have hnewer := (List.pairwise_append.mp hsorted).2.2 w hw item List.mem_cons_self
        rw [hitem]
        exact ⟨r, hr, hrcurrency.trans hcurrency, hnewer.trans hle⟩
      · apply ih hrest
        simp only [List.mem_append, List.mem_cons, hitem, false_or] at hx ⊢
        exact hx
    · apply ih
      · rwa [List.append_assoc]
      · rwa [List.append_assoc]

theorem mem_of_mem_reGroupLoop {unicGroup rows : List WalletRow} {r : WalletRow}
    (hr : r ∈ reGroupLoop unicGroup [] rows) : r ∈ unicGroup ∨ r ∈ rows := by
  induction rows generalizing unicGroup with
  | nil => simp [reGroupLoop] at hr
  | cons item rest ih =>
    have hclosed : r ∈ (unicGroup ++ [item]) ++ reGroupLoop [] [] rest →
        r ∈ unicGroup ∨ r ∈ item :: rest := by
      intro hr
      rcases List.mem_append.mp hr with hr | hr
      · rcases List.mem_append.mp hr with hr | hr
        · exact .inl hr
        · exact .inr (by simp [List.mem_singleton.mp hr])
      · exact .inr (List.mem_cons_of_mem item ((ih hr).resolve_left List.not_mem_nil))
    rw [reGroupLoop] at hr
    split_ifs at hr
    · exact (ih hr).imp_right (List.mem_cons_of_mem item)
    · rw [reGroupLoop_accum, List.nil_append] at hr
      exact hclosed hr
    · rcases ih hr with hr | hr
      · rcases List.mem_append.mp hr with hr | hr
        · exact .inl hr
        · exact .inr (by simp [List.mem_singleton.mp hr])
      · exact .inr (List.mem_cons_of_mem item hr)
    · rw [reGroupLoop_accum, List.nil_append] at hr
      exact hclosed hr

end Runs

section Newest

/-- One row of the data, the newest, for each ISO week, wallet type and currency. -/
structure OneNewestEach (data res : List WalletRow) : Prop where
  nodup : (res.map isoKey).Nodup
  subset : ∀ r ∈ res, r ∈ data
  newest : ∀ x ∈ data, ∃ r ∈ res, isoKey r = isoKey x ∧
    ∀ y ∈ data, isoKey y = isoKey x → y.mtsUpdate ≤ r.mtsUpdate

theorem oneNewestEach_append {xs ys out out' : List WalletRow}
    (hdisjoint : ∀ x ∈ xs, ∀ y ∈ ys, isoKey x ≠ isoKey y) (hout : ∀ r ∈ out, r ∈ xs)
    (hout' : ∀ r ∈ out', r ∈ ys) :
    OneNewestEach (xs ++ ys) (out ++ out') ↔ OneNewestEach xs out ∧ OneNewestEach ys out' := by
  constructor
  · intro h
    have hnodup := h.nodup
    rw [List.map_append] at hnodup
    obtain ⟨hleft, hright, _⟩ := List.nodup_append.mp hnodup
    constructor
    · refine ⟨hleft, hout, ?_⟩
      intro x hx
      obtain ⟨r, hr, hkey, hnewest⟩ := h.newest x (List.mem_append_left ys hx)
      rcases List.mem_append.mp hr with hr | hr
      · exact ⟨r, hr, hkey, fun y hy => hnewest y (List.mem_append_left ys hy)⟩
      · exact absurd hkey.symm (hdisjoint x hx r (hout' r hr))
    · refine ⟨hright, hout', ?_⟩
      intro x hx
      obtain ⟨r, hr, hkey, hnewest⟩ := h.newest x (List.mem_append_right xs hx)
      rcases List.mem_append.mp hr with hr | hr
      · exact absurd hkey (hdisjoint r (hout r hr) x hx)
      · exact ⟨r, hr, hkey, fun y hy => hnewest y (List.mem_append_right xs hy)⟩
  · rintro ⟨h, h'⟩
    refine ⟨?_, ?_, ?_⟩
    · rw [List.map_append]
      apply List.nodup_append.mpr
      refine ⟨h.nodup, h'.nodup, ?_⟩
      intro key hkey key' hkey'
      obtain ⟨r, hr, rfl⟩ := List.mem_map.mp hkey
      obtain ⟨r', hr', rfl⟩ := List.mem_map.mp hkey'
      exact hdisjoint r (hout r hr) r' (hout' r' hr')
    · intro r hr
      rcases List.mem_append.mp hr with hr | hr
      · exact List.mem_append_left ys (hout r hr)
      · exact List.mem_append_right xs (hout' r hr)
    · intro x hx
      rcases List.mem_append.mp hx with hx | hx
      · obtain ⟨r, hr, hkey, hnewest⟩ := h.newest x hx
        refine ⟨r, List.mem_append_left out' hr, hkey, ?_⟩
        intro y hy hy'
        rcases List.mem_append.mp hy with hy | hy
        · exact hnewest y hy hy'
        · exact absurd hy'.symm (hdisjoint x hx y hy)
      · obtain ⟨r, hr, hkey, hnewest⟩ := h'.newest x hx
        refine ⟨r, List.mem_append_right out hr, hkey, ?_⟩
        intro y hy hy'
        rcases List.mem_append.mp hy with hy | hy
        · exact absurd hy' (hdisjoint y hy x hx)
        · exact hnewest y hy hy'

theorem oneNewestEach_singleton (x : WalletRow) : OneNewestEach [x] [x] where
  nodup := List.nodup_singleton _
  subset := fun _ hr => hr
  newest := by
    intro y hy
    refine ⟨x, List.mem_singleton_self x, by rw [List.mem_singleton.mp hy], ?_⟩
    intro z hz _
    rw [List.mem_singleton.mp hz]

theorem currency_eq_of_isoKey_eq {x y : WalletRow} (h : isoKey x = isoKey y) :
    x.currency = y.currency := congrArg (fun key => key.2.1) h

/-- The first rows of the currencies of a run are what is asked for if and only if the
currency tells the wallet type and the week. -/
theorem oneNewestEach_firstOfCurrencies {run : List WalletRow}
    (hsorted : run.Pairwise fun x y => y.mtsUpdate ≤ x.mtsUpdate) :
    OneNewestEach run (firstOfCurrencies [] run) ↔
      ∀ x ∈ run, ∀ y ∈ run, x.currency = y.currency → isoKey x = isoKey y := by
  have hnodup := @nodup_firstOfCurrencies [] List.nodup_nil run
  have hsubset : ∀ r ∈ firstOfCurrencies [] run, r ∈ run := fun r hr =>
    (mem_of_mem_firstOfCurrencies hr).resolve_left List.not_mem_nil
  constructor
  · intro h x hx y hy hcurrency
    obtain ⟨r, hr, hkey, _⟩ := h.newest x hx
    obtain ⟨r', hr', hkey', _⟩ := h.newest y hy
    have heq : r.currency = r'.currency := by
      rw [currency_eq_of_isoKey_eq hkey, hcurrency, currency_eq_of_isoKey_eq hkey']
    rw [← hkey, List.inj_on_of_nodup_map hnodup hr hr' heq, hkey']
  · intro hall
    refine ⟨?_, hsubset, ?_⟩
    · rw [List.nodup_map_iff_inj_on hnodup.of_map]
      intro r hr r' hr' hkey
      exact List.inj_on_of_nodup_map hnodup hr hr' (currency_eq_of_isoKey_eq hkey)
    · intro x hx
      obtain ⟨r, hr, hcurrency, _⟩ := @exists_firstOfCurrencies [] run hsorted x hx
      refine ⟨r, hr, hall r (hsubset r hr) x hx hcurrency, ?_⟩
      intro y hy hkey
      obtain ⟨r', hr', hcurrency', hle⟩ := @exists_firstOfCurrencies [] run hsorted y hy
      have heq : r' = r := by
        apply List.inj_on_of_nodup_map hnodup hr' hr
        rw [hcurrency', currency_eq_of_isoKey_eq hkey, hcurrency]
      rwa [← heq]

/-- The rows cut into runs at the turns of years, at the rows in between. -/
noncomputable def turnRuns (rows : List WalletRow) : List (List WalletRow) :=
  rows.splitOnP fun row => !isAtTurnOfYear row.mtsUpdate

/-- In a run the currency tells the wallet type and the week, and the last of all rows is not
the second of its currency in its run. -/
structure MergesWeeks (rows : List WalletRow) : Prop where
  alone : ∀ run ∈ turnRuns rows, ∀ x ∈ run, ∀ y ∈ run, x.currency = y.currency →
    isoKey x = isoKey y
  flushed : ∀ run ∈ (turnRuns rows).getLast?, ∀ init last, run = init ++ [last] →
    ∀ x ∈ init, x.currency ≠ last.currency

theorem exists_run (rows : List WalletRow) :
    ∃ run, (∀ x ∈ run, isAtTurnOfYear x.mtsUpdate = true) ∧
      (rows = run ∨ ∃ row rest, rows = run ++ row :: rest ∧
        isAtTurnOfYear row.mtsUpdate = false) := by
  induction rows with
  | nil => exact ⟨[], by simp, .inl rfl⟩
  | cons item rest ih =>
    cases hitem : isAtTurnOfYear item.mtsUpdate with
    | false => exact ⟨[], by simp, .inr ⟨item, rest, rfl, hitem⟩⟩
    | true =>
      obtain ⟨run, hrun, hrows⟩ := ih
      refine ⟨item :: run, List.forall_mem_cons.mpr ⟨hitem, hrun⟩, ?_⟩
      rcases hrows with rfl | ⟨row, rest, rfl, hrow⟩
      · exact .inl rfl
      · exact .inr ⟨row, rest, rfl, hrow⟩

theorem turnRuns_run {run : List WalletRow}
    (hrun : ∀ x ∈ run, isAtTurnOfYear x.mtsUpdate = true) : turnRuns run = [run] := by
  apply List.splitOnP_eq_singleton
  intro x hx
  rw [hrun x hx]
  rfl

theorem mergesWeeks_append_cons {run rest : List WalletRow} {row : WalletRow}
    (hrun : ∀ x ∈ run, isAtTurnOfYear x.mtsUpdate = true)
    (hrow : isAtTurnOfYear row.mtsUpdate = false) :
    MergesWeeks (run ++ row :: rest) ↔
      (∀ x ∈ run, ∀ y ∈ run, x.currency = y.currency → isoKey x = isoKey y) ∧
        MergesWeeks rest := by
  have hruns : turnRuns (run ++ row :: rest) = run :: turnRuns rest := by
    apply List.splitOnP_append_cons_of_forall_mem
    · intro x hx
      rw [hrun x hx]
      rfl
    · rw [hrow]
      rfl
  have hlast : (run :: turnRuns rest).getLast? = (turnRuns rest).getLast? := by
    have hne : turnRuns rest ≠ [] := List.splitOnP_ne_nil _ _
    rw [List.getLast?_cons, List.getLast?_eq_some_getLast hne]
    rfl
  constructor
  · rintro ⟨halone, hflushed⟩
    rw [hruns] at halone hflushed
    rw [hlast] at hflushed
    exact ⟨halone run List.mem_cons_self,
      fun run' hrun' => halone run' (List.mem_cons_of_mem run hrun'), hflushed⟩
  · rintro ⟨halone, hmerges⟩
    constructor
    · rw [hruns]
      exact List.forall_mem_cons.mpr ⟨halone, hmerges.alone⟩
    · rw [hruns, hlast]
      exact hmerges.flushed

/-- The rows of a run that ends the list. -/
theorem oneNewestEach_run_iff {run : List WalletRow}
    (hsorted : run.Pairwise fun x y => y.mtsUpdate ≤ x.mtsUpdate)
    (hrun : ∀ x ∈ run, isAtTurnOfYear x.mtsUpdate = true) :
    OneNewestEach run (reGroupWeeklyDataGroups run) ↔ MergesWeeks run := by
  have hmerges : MergesWeeks run ↔
      (∀ x ∈ run, ∀ y ∈ run, x.currency = y.currency → isoKey x = isoKey y) ∧
        ∀ init last, run = init ++ [last] → ∀ x ∈ init, x.currency ≠ last.currency := by
    constructor
    · rintro ⟨halone, hflushed⟩
      rw [turnRuns_run hrun] at halone hflushed
      exact ⟨halone run (List.mem_singleton_self run), hflushed run rfl⟩
    · rintro ⟨halone, hflushed⟩
      constructor
      · rw [turnRuns_run hrun]
        exact List.forall_mem_singleton.mpr halone
      · rw [turnRuns_run hrun]
        rintro run' hrun'
        rw [← Option.some.inj hrun']
        exact hflushed
  rw [hmerges]
  rcases List.eq_nil_or_concat' run with rfl | ⟨init, last, rfl⟩
  · refine iff_of_true ⟨List.nodup_nil, by simp [reGroupWeeklyDataGroups, reGroupLoop], by simp⟩
      ⟨by simp, by simp⟩
  · have hin : isInUnicGroup (firstOfCurrencies [] init) last = true ↔
        ∃ x ∈ init, x.currency = last.currency := by
      have hinit : ([] ++ init).Pairwise fun x y : WalletRow => y.mtsUpdate ≤ x.mtsUpdate :=
        (List.pairwise_append.mp hsorted).1
      rw [isInUnicGroup_iff]
      constructor
      · rintro ⟨w, hw, hcurrency⟩
        exact ⟨w, (mem_of_mem_firstOfCurrencies hw).resolve_left List.not_mem_nil, hcurrency⟩
      · rintro ⟨x, hx, hcurrency⟩
        obtain ⟨r, hr, hrcurrency, _⟩ := exists_firstOfCurrencies hinit hx
        exact ⟨r, hr, hrcurrency.trans hcurrency⟩
    rw [reGroupWeeklyDataGroups, reGroupLoop_concat hrun]
    by_cases hlast : isInUnicGroup (firstOfCurrencies [] init) last = true
    · rw [if_pos hlast]
      obtain ⟨x, hx, hcurrency⟩ := hin.mp hlast
      apply iff_of_false
      · intro h
        obtain ⟨r, hr, _⟩ := h.newest x (List.mem_append_left _ hx)
        exact List.not_mem_nil hr
      · intro h
        exact h.2 init last rfl x hx hcurrency
    · rw [if_neg hlast, oneNewestEach_firstOfCurrencies hsorted, iff_self_and]
      rintro _ init' last' heq x hx hcurrency
      obtain ⟨hinit, hlastEq⟩ := List.append_inj' heq rfl
      rw [← hinit] at hx
      rw [← List.singleton_inj.mp hlastEq] at hcurrency
      exact hlast (hin.mpr ⟨x, hx, hcurrency⟩)

/-- The regrouping leaves the newest row of each ISO week, wallet type and currency if and
only if the runs at the turns of years are merged rightly. -/
theorem oneNewestEach_iff {rows : List WalletRow}
    (hsorted : rows.Pairwise fun x y => y.mtsUpdate ≤ x.mtsUpdate)
    (hunique : (rows.map dbKey).Nodup) :
    OneNewestEach rows (reGroupWeeklyDataGroups rows) ↔ MergesWeeks rows := by
  induction hlength : rows.length using Nat.strong_induction_on generalizing rows with
  | _ n ih =>
    obtain ⟨run, hrun, rfl | ⟨row, rest, rfl, hrow⟩⟩ := exists_run rows
    · exact oneNewestEach_run_iff hsorted hrun
    · obtain ⟨hsortedRun, hsortedRest, hbetween⟩ := List.pairwise_append.mp hsorted
      obtain ⟨hrowRest, hsortedRest⟩ := List.pairwise_cons.mp hsortedRest
      rw [List.map_append, List.map_cons] at hunique
      obtain ⟨_, huniqueRest, _⟩ := List.nodup_append.mp hunique
      obtain ⟨hnotMem, huniqueRest⟩ := List.nodup_cons.mp huniqueRest
      have hweek : ∀ x ∈ run, isoWeekOf x.mtsUpdate ≠ isoWeekOf row.mtsUpdate := by
        intro x hx heq
        have hturn := isAtTurnOfYear_congr heq
        rw [hrun x hx, hrow] at hturn
        cases hturn
      have hrunRest : ∀ x ∈ run, ∀ y ∈ row :: rest, isoKey x ≠ isoKey y := by
        intro x hx y hy hkey
        have heq : isoWeekOf x.mtsUpdate = isoWeekOf y.mtsUpdate :=
          congrArg (fun key => key.2.2) hkey
        have hle : y.mtsUpdate ≤ row.mtsUpdate := by
          rcases List.mem_cons.mp hy with rfl | hy
          · exact Int.le_refl _
          · exact hrowRest y hy
        have hlow := isoWeekOf_mono hle
        have hhigh := isoWeekOf_mono (hbetween x hx row List.mem_cons_self)
        exact hweek x hx (by omega)
      have hrowKey : ∀ x ∈ [row], ∀ y ∈ rest, isoKey x ≠ isoKey y := by
        intro x hx y hy hkey
        rw [List.mem_singleton.mp hx] at hkey
        apply hnotMem
        refine List.mem_map.mpr ⟨y, hy, ?_⟩
        have heq : isoWeekOf row.mtsUpdate = isoWeekOf y.mtsUpdate :=
          congrArg (fun key => key.2.2) hkey
        have htype : row.type = y.type := congrArg Prod.fst hkey
        rw [dbKey, dbKey, ← dbWeek_eq heq hrow, htype, currency_eq_of_isoKey_eq hkey]
      have hout : ∀ r ∈ reGroupWeeklyDataGroups rest, r ∈ rest := fun r hr =>
        (mem_of_mem_reGroupLoop hr).resolve_left List.not_mem_nil
      have hshorter : rest.length < n := by
        rw [← hlength, List.length_append, List.length_cons]
        omega
      have hrest := ih rest.length hshorter hsortedRest huniqueRest rfl
      have hcons : OneNewestEach (row :: rest) (row :: reGroupWeeklyDataGroups rest) ↔
          MergesWeeks rest := by
        rw [← hrest]
        have happend := @oneNewestEach_append [row] rest [row] _ hrowKey (fun _ hr => hr) hout
        exact happend.trans (and_iff_right (oneNewestEach_singleton row))
      rw [reGroupWeeklyDataGroups, reGroupLoop_append_cons hrun hrow, mergesWeeks_append_cons hrun
        hrow, oneNewestEach_append hrunRest, oneNewestEach_firstOfCurrencies hsortedRun, hcons]
      · exact fun r hr => (mem_of_mem_firstOfCurrencies hr).resolve_left List.not_mem_nil
      · intro r hr
        rcases List.mem_cons.mp hr with rfl | hr
        · exact List.mem_cons_self
        · exact List.mem_cons_of_mem row (hout r hr)

end Newest

namespace WeeksWitness

def wallet (type : String) (mtsUpdate : ℤ) : WalletRow := ⟨type, "USD", 1, mtsUpdate⟩

/-- 2 January 2021 and 30 December 2020, in one week. -/
def bothSides : List WalletRow := [wallet "exchange" 1609545600000, wallet "exchange" 1609286400000]

/-- Both rows are lost, as the list ends with the second of them. -/
theorem bothSides_lost :
    reGroupWeeklyDataGroups bothSides = [] ∧
      ¬ ∀ rows : List WalletRow, (rows.Pairwise fun x y => y.mtsUpdate ≤ x.mtsUpdate) →
        (rows.map dbKey).Nodup → OneNewestEach rows (reGroupWeeklyDataGroups rows) := by
  have hlost : reGroupWeeklyDataGroups bothSides = [] := by decide +kernel
  refine ⟨hlost, ?_⟩
  intro hall
  have h := hall bothSides (by decide +kernel) (by decide +kernel)
  rw [hlost] at h
  obtain ⟨r, hr, _⟩ := h.newest (wallet "exchange" 1609545600000) (by decide +kernel)
  exact List.not_mem_nil hr

/-- With a row of 20 December behind them. -/
def withEarlier : List WalletRow := bothSides ++ [wallet "exchange" 1608422400000]

theorem oneNewestEach_iff_withEarlier :
    reGroupWeeklyDataGroups withEarlier =
        [wallet "exchange" 1609545600000, wallet "exchange" 1608422400000] ∧
      OneNewestEach withEarlier (reGroupWeeklyDataGroups withEarlier) := by
  refine ⟨by decide +kernel, ?_⟩
  apply (oneNewestEach_iff (by decide +kernel) (by decide +kernel)).mpr
  have hruns : turnRuns withEarlier = [bothSides, []] := by decide +kernel
  constructor
  · rw [hruns]
    decide +kernel
  · rw [hruns]
    rintro run hrun init last heq
    rw [← Option.some.inj hrun] at heq
    simp at heq

end WeeksWitness

end WeeklyRegroup

end ReportsFramework
