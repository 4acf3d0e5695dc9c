/-
Sums of rows by frame.  What a function without a state answers for the rows of the frames, and
the sums of the frames up to one of them, which are the sums of the rows up to it.
-/
import Mathlib.Algebra.BigOperators.Group.List.Basic
import Mathlib.Algebra.Order.Ring.Rat
import ReportsFramework.BalanceAtFrames
import ReportsFramework.SeriesMerge

namespace ReportsFramework.FrameSums

variable {ρ V : Type*}

/-- A `calcDataFn` that looks at the rows only. -/
def stateless (calcFn : List ρ → Option V) : CalcDataFn ρ V Unit :=
  fun state data _ => (calcFn data, state)

theorem answers_stateless (calcFn : List ρ → Option V) (blocks : List (ℤ × List ρ)) :
    answers (stateless calcFn) () blocks = blocks.map fun b => (b.1, calcFn b.2) := by
  induction blocks with
  | nil => rfl
  | cons b rest ih => exact congrArg _ ih

/-- The rows of a frame. -/
def rowsIn (timeframe : Timeframe) (mts : ρ → ℤ) (data : List ρ) (frame : ℤ) : List ρ :=
  data.filter fun row => getStartMtsByTimeframe (mts row) timeframe = frame

/-- The frames with rows, the newest first. -/
def framesOf (timeframe : Timeframe) (mts : ρ → ℤ) (data : List ρ) : List ℤ :=
  ((frameBlocks timeframe mts data).map Prod.fst).reverse

section Frames

variable {timeframe : Timeframe} {mts : ρ → ℤ} {data : List ρ}

theorem mem_framesOf {frame : ℤ} :
    frame ∈ framesOf timeframe mts data ↔
      ∃ row ∈ data, getStartMtsByTimeframe (mts row) timeframe = frame := by
  unfold framesOf frameBlocks
  rw [List.mem_reverse, KeyBlocks.mem_keys]
  simp only [List.mem_reverse]

theorem pairwise_framesOf (hsorted : data.Pairwise fun row row' => mts row' ≤ mts row) :
    (framesOf timeframe mts data).Pairwise (· > ·) :=
  List.pairwise_reverse.mpr (pairwise_frames timeframe hsorted)

/-- The block of a frame is the rows of the frame. -/
theorem frameBlocks_eq (hsorted : data.Pairwise fun row row' => mts row' ≤ mts row) :
    frameBlocks timeframe mts data =
      (framesOf timeframe mts data).reverse.map fun frame =>
        (frame, rowsIn timeframe mts data frame) := by
  have hascending : data.reverse.Pairwise fun row row' =>
      getStartMtsByTimeframe (mts row) timeframe ≤ getStartMtsByTimeframe (mts row') timeframe := by
    apply (List.pairwise_reverse.mpr hsorted).imp
    intro row row' hle
    rw [getStartMtsByTimeframe_eq, getStartMtsByTimeframe_eq]
    exact timeframe.frames.start_mono hle
  rw [framesOf, List.reverse_reverse, List.map_map]
  symm
  calc _ = (frameBlocks timeframe mts data).map id := by
        apply List.map_congr_left
        intro b hb
        have hdata := KeyBlocks.data_eq hascending hb
        rw [List.filter_reverse, List.reverse_reverse] at hdata
        simp only [Function.comp_apply, id_eq, rowsIn, ← hdata]
    _ = _ := List.map_id _

variable (calcFn : List ρ → Option V) (start stop : ℤ)

/-- The groups of rows are what is calculated for the rows of each frame. -/
theorem map_groupByTimeframe_stateless
    (hsorted : data.Pairwise fun row row' => mts row' ≤ mts row) :
    (groupByTimeframe (fun row => some (mts row)) (stateless calcFn) timeframe () data start
        stop).map
        (fun item => (getStartMtsByTimeframe item.mts timeframe, item.vals)) =
      (framesOf timeframe mts data).filterMap fun frame =>
        (calcFn (rowsIn timeframe mts data frame)).map fun vals => (frame, vals) := by
  have hgroups := map_groupByTimeframe timeframe start stop (stateless calcFn) ()
    (fun _ _ => rfl) hsorted
  rw [answers_stateless, frameBlocks_eq hsorted] at hgroups
  simp only [getStartMtsByTimeframe_eq]
  refine hgroups.trans ?_
  rw [reported, ← List.filterMap_reverse, List.map_filterMap, ← List.map_reverse,
    ← List.map_reverse, List.reverse_reverse, List.map_map, List.filterMap_map]
  apply List.filterMap_congr
  intro frame _
  simp only [Function.comp_apply, Option.map_map]
  rfl

end Frames

section Sums

variable (valueOf : ρ → Option ℚ)

/-- The sum of the values that are finite. -/
def total (data : List ρ) : ℚ := (data.filterMap valueOf).sum

/-- One value more. -/
def addFinite (accum : Option ℚ) (row : ρ) : Option ℚ :=
  (valueOf row).elim accum fun value => some (accum.elim value (· + value))

/-- The sum of the finite values, if there is any, added up one by one. -/
def sumOfFinite (data : List ρ) : Option ℚ := data.foldl (addFinite valueOf) none

theorem foldl_addFinite (data : List ρ) (accum : Option ℚ) :
    data.foldl (addFinite valueOf) accum =
      if data.filterMap valueOf = [] then accum else some (accum.getD 0 + total valueOf data) := by
  induction data generalizing accum with
  | nil => rfl
  | cons row rest ih =>
      rw [List.foldl_cons, ih, total, total]
      cases hvalue : valueOf row with
      | none => simp [addFinite, hvalue]
      | some value =>
          simp only [addFinite, List.filterMap_cons, hvalue, List.sum_cons, Option.elim_some]
          cases accum with
          | none =>
              by_cases hrest : rest.filterMap valueOf = []
              · simp [hrest]
              · simp [hrest]
          | some sum =>
              by_cases hrest : rest.filterMap valueOf = []
              · simp [hrest]
              · simp [hrest, add_assoc]

theorem sumOfFinite_eq (data : List ρ) :
    sumOfFinite valueOf data =
      if data.filterMap valueOf = [] then none else some (total valueOf data) := by
  rw [sumOfFinite, foldl_addFinite]
  simp

theorem total_append (data data' : List ρ) :
    total valueOf (data ++ data') = total valueOf data + total valueOf data' := by
  rw [total, List.filterMap_append, List.sum_append]
  rfl

theorem total_flatMap {α : Type*} (keys : List α) (data : α → List ρ) :
    total valueOf (keys.flatMap data) = (keys.map fun key => total valueOf (data key)).sum := by
  induction keys with
  | nil => rfl
  | cons key rest ih => rw [List.flatMap_cons, total_append, ih, List.map_cons, List.sum_cons]

theorem total_perm {data data' : List ρ} (h : data.Perm data') :
    total valueOf data = total valueOf data' :=
  (h.filterMap valueOf).sum_eq

/-- Values of zero may be left out of a sum. -/
theorem sum_map_filter {α : Type*} {l : List α} {value : α → ℚ} {p : α → Bool}
    (h : ∀ a ∈ l, p a = false → value a = 0) :
    ((l.filter p).map value).sum = (l.map value).sum := by
  induction l with
  | nil => rfl
  | cons first rest ih =>
      have hrest : ((rest.filter p).map value).sum = (rest.map value).sum :=
        ih fun a ha => h a (List.mem_cons_of_mem _ ha)
      rw [List.map_cons, List.sum_cons, ← hrest]
      by_cases hp : p first = true
      · rw [List.filter_cons_of_pos hp, List.map_cons, List.sum_cons]
      · rw [List.filter_cons_of_neg hp, h first List.mem_cons_self (by simpa using hp), zero_add]

/-- The sums of the frames that meet a condition add up to the sum of their rows. -/
theorem sum_frames {timeframe : Timeframe} {mts : ρ → ℤ} {data : List ρ}
    (hsorted : data.Pairwise fun row row' => mts row' ≤ mts row) (p : ℤ → Bool) :
    (((framesOf timeframe mts data).filter p).map fun frame =>
      total valueOf (rowsIn timeframe mts data frame)).sum =
        total valueOf (data.filter fun row => p (getStartMtsByTimeframe (mts row) timeframe)) := by
  have hflat := KeyBlocks.flatMap_reverse_filter_blocks
    (fun row => getStartMtsByTimeframe (mts row) timeframe) data.reverse p
  have hblocks : KeyBlocks.blocks (fun row => getStartMtsByTimeframe (mts row) timeframe)
      data.reverse = (framesOf timeframe mts data).reverse.map fun frame =>
        (frame, rowsIn timeframe mts data frame) := frameBlocks_eq hsorted
  rw [hblocks, List.filter_reverse (l := data), List.reverse_reverse] at hflat
  rw [← hflat, List.filter_map, ← List.map_reverse, List.filter_reverse, List.reverse_reverse,
    List.flatMap_map, total_flatMap]
  rfl

/-- The sum of the values of the frames up to one of them. -/
def sumUpTo (value : ℤ → ℚ) (frames : List ℤ) (frame : ℤ) : ℚ :=
  ((frames.filter (· ≤ frame)).map value).sum

theorem sumUpTo_reverse (value : ℤ → ℚ) (frames : List ℤ) (frame : ℤ) :
    sumUpTo value frames.reverse frame = sumUpTo value frames frame := by
  rw [sumUpTo, sumUpTo, List.filter_reverse, List.map_reverse, List.sum_reverse]

/-- The sums of the values so far. -/
def runningSums (sum : ℚ) : List ℚ → List ℚ
  | [] => []
  | value :: rest => (sum + value) :: runningSums (sum + value) rest

theorem runningSums_map (value : ℤ → ℚ) {frames : List ℤ} (h : frames.Pairwise (· < ·)) (sum : ℚ) :
    runningSums sum (frames.map value) =
      frames.map fun frame => sum + sumUpTo value frames frame := by
  induction frames generalizing sum with
  | nil => rfl
  | cons first rest ih =>
      obtain ⟨hfirst, hrest⟩ := List.pairwise_cons.mp h
      rw [List.map_cons, runningSums, ih hrest, List.map_cons]
      congr 1
      · have hnone : rest.filter (· ≤ first) = [] := by
          apply List.filter_eq_nil_iff.mpr
          intro frame hmem
          simpa using hfirst frame hmem
        rw [sumUpTo, List.filter_cons_of_pos (by simp), hnone, List.map_singleton,
          List.sum_singleton]
      · apply List.map_congr_left
        intro frame hmem
        have hle : first ≤ frame := (hfirst frame hmem).le
        rw [sumUpTo, sumUpTo, List.filter_cons_of_pos (by simpa using hle), List.map_cons,
          List.sum_cons, add_assoc]

end Sums

section ValueFrames

variable (valueOf : ρ → Option ℚ) {timeframe : Timeframe} {mts : ρ → ℤ} {data : List ρ}

/-- The frames that have a value, the newest first. -/
def valueFrames (timeframe : Timeframe) (mts : ρ → ℤ) (data : List ρ) : List ℤ :=
  (framesOf timeframe mts data).filter fun frame =>
    (rowsIn timeframe mts data frame).filterMap valueOf ≠ []

theorem mem_valueFrames {frame : ℤ} :
    frame ∈ valueFrames valueOf timeframe mts data ↔
      ∃ row ∈ data, (valueOf row).isSome ∧ getStartMtsByTimeframe (mts row) timeframe = frame := by
  unfold valueFrames
  rw [List.mem_filter, mem_framesOf, decide_eq_true_iff]
  constructor
  · rintro ⟨_, hne⟩
    obtain ⟨value, hvalue⟩ := List.exists_mem_of_ne_nil _ hne
    obtain ⟨row, hmem, hvalue⟩ := List.mem_filterMap.mp hvalue
    obtain ⟨hrow, hframe⟩ := List.mem_filter.mp hmem
    exact ⟨row, hrow, Option.isSome_of_mem hvalue, of_decide_eq_true hframe⟩
  · rintro ⟨row, hrow, hsome, hframe⟩
    obtain ⟨value, hvalue⟩ := Option.isSome_iff_exists.mp hsome
    have hmem : row ∈ rowsIn timeframe mts data frame :=
      List.mem_filter.mpr ⟨hrow, decide_eq_true hframe⟩
    exact ⟨⟨row, hrow, hframe⟩, List.ne_nil_of_mem (List.mem_filterMap.mpr ⟨row, hmem, hvalue⟩)⟩

theorem pairwise_valueFrames (hsorted : data.Pairwise fun row row' => mts row' ≤ mts row) :
    (valueFrames valueOf timeframe mts data).Pairwise (· > ·) :=
  (pairwise_framesOf hsorted).filter _

theorem total_of_notMem {frame : ℤ} (h : frame ∉ valueFrames valueOf timeframe mts data) :
    total valueOf (rowsIn timeframe mts data frame) = 0 := by
  have hnone : (rowsIn timeframe mts data frame).filterMap valueOf = [] := by
    apply List.filterMap_eq_nil_iff.mpr
    intro row hmem
    obtain ⟨hrow, hframe⟩ := List.mem_filter.mp hmem
    by_contra hsome
    exact h ((mem_valueFrames valueOf).mpr
      ⟨row, hrow, Option.isSome_iff_ne_none.mpr hsome, of_decide_eq_true hframe⟩)
  rw [total, hnone, List.sum_nil]

/-- The sums over the frames with values are the sums of their rows. -/
theorem sumUpTo_valueFrames (hsorted : data.Pairwise fun row row' => mts row' ≤ mts row)
    (frame : ℤ) :
    sumUpTo (fun frame => total valueOf (rowsIn timeframe mts data frame))
        (valueFrames valueOf timeframe mts data) frame =
      total valueOf (data.filter fun row =>
        getStartMtsByTimeframe (mts row) timeframe ≤ frame) := by
  rw [← sum_frames valueOf hsorted fun frame' => frame' ≤ frame, sumUpTo, valueFrames,
    List.filter_comm]
  apply sum_map_filter
  intro frame' _ hnone
  rw [total, not_ne_iff.mp (of_decide_eq_false hnone), List.sum_nil]

/-- The groups that are added up are the sums of the frames with values. -/
theorem map_groupByTimeframe_sums (timeframe : Timeframe) (start stop : ℤ)
    (hsorted : data.Pairwise fun row row' => mts row' ≤ mts row) :
    (groupByTimeframe (fun row => some (mts row)) (stateless (sumOfFinite valueOf)) timeframe ()
        data start stop).map
        (fun item => (getStartMtsByTimeframe item.mts timeframe, item.vals)) =
      (valueFrames valueOf timeframe mts data).map fun frame =>
        (frame, total valueOf (rowsIn timeframe mts data frame)) := by
  rw [map_groupByTimeframe_stateless _ _ _ hsorted, ← List.filterMap_eq_map, valueFrames,
    List.filterMap_filter]
  apply List.filterMap_congr
  intro frame _
  rw [sumOfFinite_eq]
  by_cases hnil : (rowsIn timeframe mts data frame).filterMap valueOf = []
  · simp [hnil]
  · simp [hnil]

end ValueFrames

section Series

open CalcGroupedData

variable {κ : Type*} [DecidableEq κ] {W : κ → Type*} {data : ∀ key, List (GroupItem (W key))}

/-- The vals of a series at a timestamp. -/
def valsAt (items : List (GroupItem V)) (mts : ℤ) : Option V :=
  (items.find? (·.mts = mts)).map GroupItem.vals

theorem valsAt_eq_some_iff {items : List (GroupItem V)}
    (h : items.Pairwise fun item item' => item.mts > item'.mts) {mts : ℤ} {vals : V} :
    valsAt items mts = some vals ↔ ⟨mts, vals⟩ ∈ items :=
  find?_vals_eq_some h mts vals

/-- Series, as `calcGroupedData` is given them. -/
def seriesOf (data : ∀ key, List (GroupItem (W key))) : CalcGroupedData.Series W :=
  fun key => (data key).map fun item => ⟨item.mts, some item.vals⟩

/-- Where one series has all the timestamps, the merged list has its timestamps and the vals that
the series have there. -/
theorem mergeData_covered (keys : List κ) (cover : κ)
    (hdata : ∀ key, (data key).Pairwise fun item item' => item.mts > item'.mts)
    (hcover : cover ∈ keys) (hall : ∀ key, key ∈ keys)
    (hmts : ∀ key, ∀ item ∈ data key, item.mts ∈ (data cover).map GroupItem.mts) :
    CalcGroupedData.mergeData keys (seriesOf data) =
      (data cover).map fun item => ⟨item.mts, fun key => valsAt (data key) item.mts⟩ := by
  unfold seriesOf
  rw [mergeData_map_some]
  obtain ⟨hpairwise, hmem, hvals⟩ := mergeData_spec keys data fun key _ => hdata key
  have htimes : (ReportsFramework.mergeData keys data).map MergedItem.mts =
      (data cover).map GroupItem.mts := by
    have hirrefl : Std.Irrefl fun m m' : ℤ => m > m' := ⟨fun _ => lt_irrefl _⟩
    refine List.Pairwise.eq_of_mem_iff (List.pairwise_map.mpr hpairwise)
      (List.pairwise_map.mpr (hdata cover)) ?_
    intro m
    rw [hmem]
    constructor
    · rintro ⟨key, _, hm⟩
      obtain ⟨item, hitem, rfl⟩ := List.mem_map.mp hm
      exact hmts key item hitem
    · exact fun hm => ⟨cover, hcover, hm⟩
  calc _ = (ReportsFramework.mergeData keys data).map id := (List.map_id _).symm
    _ = (ReportsFramework.mergeData keys data).map
          ((fun m => ⟨m, fun key => valsAt (data key) m⟩) ∘ MergedItem.mts) := by
        apply List.map_congr_left
        intro item hitem
        have heq : item.vals = fun key => valsAt (data key) item.mts := by
          funext key
          apply Option.ext
          intro vals
          rw [hvals item hitem, valsAt_eq_some_iff (hdata key)]
          exact and_iff_right (hall key)
        rw [Function.comp_apply, ← heq]
        rfl
    _ = _ := by
        rw [← List.map_map, htimes, List.map_map]
        rfl

end Series

section Ranges

variable {timeframe : Timeframe} {mts : ρ → ℤ} {data : List ρ} {start stop : ℤ}

/-- The timestamps of the frames of a range. -/
def frameMts (timeframe : Timeframe) (start stop : ℤ) : List ℤ :=
  (getMtsGroupedByTimeframe start stop timeframe true).map GroupItem.mts

/-- A range of valid moments. -/
structure IsRange (timeframe : Timeframe) (start stop : ℤ) : Prop where
  le : start ≤ stop
  first_isValid : Moment.isValid (timeframe.frames.start start) = true
  stop_isValid : Moment.isValid stop = true

theorem IsRange.start_inj (h : IsRange timeframe start stop) {m m' : ℤ}
    (hm : m ∈ frameMts timeframe start stop) (hm' : m' ∈ frameMts timeframe start stop)
    (heq : timeframe.frames.start m = timeframe.frames.start m') : m = m' :=
  mts_inj timeframe h.le h.first_isValid h.stop_isValid hm hm' heq

theorem IsRange.pairwise_frameMts (h : IsRange timeframe start stop) :
    (frameMts timeframe start stop).Pairwise (· > ·) :=
  List.pairwise_map.mpr
    (pairwise_getMtsGroupedByTimeframe timeframe h.le h.first_isValid h.stop_isValid)

theorem IsRange.mem_frameMts (h : IsRange timeframe start stop) (m : ℤ) :
    m ∈ frameMts timeframe start stop ↔
      m = stop ∨ timeframe.frames.start start < timeframe.frames.start stop ∧ m = start ∨
        timeframe.frames.start m = m ∧ timeframe.frames.start start < m ∧
          m < timeframe.frames.start stop :=
  mem_getMtsGroupedByTimeframe timeframe h.le h.first_isValid h.stop_isValid m

theorem IsRange.le_stop (h : IsRange timeframe start stop) {m : ℤ}
    (hm : m ∈ frameMts timeframe start stop) : m ≤ stop := by
  have hle := h.le
  have hstop := timeframe.frames.start_le stop
  rcases (h.mem_frameMts m).mp hm with heq | ⟨_, heq⟩ | ⟨_, _, hlt⟩
  · omega
  · omega
  · omega

/-- The frames up to that of a timestamp, the latest first. -/
theorem pairwise_starts (h : IsRange timeframe start stop) (m : ℤ) :
    (((frameMts timeframe start stop).filter (· ≤ m)).map timeframe.frames.start).Pairwise
      (· > ·) := by
  apply List.pairwise_map.mpr
  have hmts := h.pairwise_frameMts.filter (· ≤ m)
  refine hmts.imp_of_mem ?_
  intro m' m'' hm' hm'' hgt
  apply lt_of_le_of_ne (timeframe.frames.start_mono (le_of_lt hgt))
  intro heq
  exact ne_of_lt hgt (h.start_inj (List.mem_filter.mp hm'').1 (List.mem_filter.mp hm').1 heq)

/-- Where the rows with values are of the frames of a range, their sums at the timestamps up to
one of them are the sum of the rows of the frames. -/
theorem sumUpTo_frameMts (h : IsRange timeframe start stop) (valueOf : ρ → Option ℚ)
    (hsorted : data.Pairwise fun row row' => mts row' ≤ mts row)
    (hrange : ∀ row ∈ data, (valueOf row).isSome →
      timeframe.frames.start start ≤ timeframe.frames.start (mts row) ∧ mts row ≤ stop) {m : ℤ}
    (hm : m ∈ frameMts timeframe start stop) :
    sumUpTo (fun m' => total valueOf (rowsIn timeframe mts data (timeframe.frames.start m')))
        (frameMts timeframe start stop) m =
      total valueOf (data.filter fun row =>
        getStartMtsByTimeframe (mts row) timeframe ≤ timeframe.frames.start m) := by
  have hframes : (((frameMts timeframe start stop).filter (· ≤ m)).map
      timeframe.frames.start).filter (· ∈ valueFrames valueOf timeframe mts data) =
        (valueFrames valueOf timeframe mts data).filter (· ≤ timeframe.frames.start m) := by
    have hirrefl : Std.Irrefl fun frame frame' : ℤ => frame > frame' := ⟨fun _ => lt_irrefl _⟩
    refine List.Pairwise.eq_of_mem_iff ((pairwise_starts h m).filter _)
      ((pairwise_valueFrames valueOf hsorted).filter _) ?_
    intro frame
    simp only [List.mem_filter, List.mem_map, decide_eq_true_iff]
    constructor
    · rintro ⟨⟨m', ⟨_, hle⟩, rfl⟩, hin⟩
      exact ⟨hin, timeframe.frames.start_mono hle⟩
    · rintro ⟨hin, hle⟩
      obtain ⟨row, hrow, hsome, heq⟩ := (mem_valueFrames valueOf).mp hin
      obtain ⟨hfirst, hlast⟩ := hrange row hrow hsome
      rw [getStartMtsByTimeframe_eq] at heq
      rw [heq] at hfirst
      obtain ⟨m', hm', heq'⟩ := exists_mts_of_frame timeframe h.le h.first_isValid h.stop_isValid
        (heq ▸ timeframe.frames.start_start (mts row)) hfirst
        (heq ▸ timeframe.frames.start_mono hlast)
      refine ⟨⟨m', ⟨hm', ?_⟩, heq'⟩, hin⟩
      by_contra hlt
      have hmono := timeframe.frames.start_mono (not_le.mp hlt).le
      have hsame : timeframe.frames.start m' = timeframe.frames.start m := by omega
      exact hlt (h.start_inj hm' hm hsame).le
  have hsum : (((valueFrames valueOf timeframe mts data).filter
      (· ≤ timeframe.frames.start m)).map fun frame =>
        total valueOf (rowsIn timeframe mts data frame)).sum =
      ((((frameMts timeframe start stop).filter (· ≤ m)).map
        timeframe.frames.start).map fun frame =>
          total valueOf (rowsIn timeframe mts data frame)).sum := by
    rw [← hframes]
    apply sum_map_filter
    exact fun frame _ hnot => total_of_notMem valueOf (of_decide_eq_false hnot)
  rw [← sumUpTo_valueFrames valueOf hsorted, sumUpTo, sumUpTo, hsum, List.map_map]
  rfl

/-- Where the groups have timestamps of a range, the vals at one of them are those of its frame. -/
theorem valsAt_groupByTimeframe (h : IsRange timeframe start stop) {first last : ℤ}
    (hsorted : data.Pairwise fun row row' => mts row' ≤ mts row)
    (calcFn : List ρ → Option V) (hnil : calcFn [] = none)
    (hmts : ∀ item ∈ groupByTimeframe (fun row => some (mts row)) (stateless calcFn) timeframe ()
      data first last, item.mts ∈ frameMts timeframe start stop) {m : ℤ}
    (hm : m ∈ frameMts timeframe start stop) :
    valsAt (groupByTimeframe (fun row => some (mts row)) (stateless calcFn) timeframe () data first
      last) m = calcFn (rowsIn timeframe mts data (timeframe.frames.start m)) := by
  have hpairwise := pairwise_groupByTimeframe mts timeframe first last (stateless calcFn) ()
    (fun _ _ => rfl) hsorted
  have hgroups := @map_groupByTimeframe_stateless _ _ timeframe _ _ calcFn first last hsorted
  apply Option.ext
  intro vals
  rw [valsAt_eq_some_iff hpairwise]
  constructor
  · intro hmem
    have hpair := List.mem_map_of_mem (f := fun item : GroupItem V =>
      (getStartMtsByTimeframe item.mts timeframe, item.vals)) hmem
    rw [hgroups] at hpair
    obtain ⟨frame, _, hframe⟩ := List.mem_filterMap.mp hpair
    obtain ⟨vals', hvals, heq⟩ := Option.map_eq_some_iff.mp hframe
    obtain ⟨rfl, rfl⟩ := Prod.mk.inj heq
    rw [← getStartMtsByTimeframe_eq]
    exact hvals
  · intro hvals
    have hframe : timeframe.frames.start m ∈ framesOf timeframe mts data := by
      by_contra hnot
      have hempty : rowsIn timeframe mts data (timeframe.frames.start m) = [] := by
        apply List.filter_eq_nil_iff.mpr
        intro row hrow heq
        exact hnot (mem_framesOf.mpr ⟨row, hrow, of_decide_eq_true heq⟩)
      rw [hempty, hnil] at hvals
      cases hvals
    have hpair : (timeframe.frames.start m, vals) ∈ (framesOf timeframe mts data).filterMap
        fun frame => (calcFn (rowsIn timeframe mts data frame)).map fun vals => (frame, vals) :=
      List.mem_filterMap.mpr ⟨_, hframe, by rw [hvals]; rfl⟩
    rw [← hgroups] at hpair
    obtain ⟨item, hitem, heq⟩ := List.mem_map.mp hpair
    obtain ⟨hstart, rfl⟩ := Prod.mk.inj heq
    rw [getStartMtsByTimeframe_eq] at hstart
    rw [← h.start_inj (hmts item hitem) hm hstart]
    exact hitem

/-- Rows of a range that begins with a frame. -/
structure Aligned (timeframe : Timeframe) (start stop : ℤ) (mts : ρ → ℤ) (data : List ρ) :
    Prop where
  le : start ≤ stop
  start_eq : getStartMtsByTimeframe start timeframe = start
  start_isValid : Moment.isValid start = true
  stop_isValid : Moment.isValid stop = true
  sorted : data.Pairwise fun row row' => mts row' ≤ mts row
  range : ∀ row ∈ data, start ≤ mts row ∧ mts row ≤ stop

theorem Aligned.isRange (h : Aligned timeframe start stop mts data) :
    IsRange timeframe start stop where
  le := h.le
  first_isValid := by
    rw [← getStartMtsByTimeframe_eq, h.start_eq]
    exact h.start_isValid
  stop_isValid := h.stop_isValid

theorem Aligned.mem_frameMts (h : Aligned timeframe start stop mts data)
    {calcFn : List ρ → Option V} :
    ∀ item ∈ groupByTimeframe (fun row => some (mts row)) (stateless calcFn) timeframe () data
      start stop, item.mts ∈ frameMts timeframe start stop :=
  mem_mts_of_aligned mts (stateless calcFn) () h.le h.start_eq h.start_isValid h.stop_isValid
    (fun _ _ => rfl) h.sorted h.range

end Ranges

end ReportsFramework.FrameSums
