/-
The timestamps of grouped rows are among the timestamps of the frames of the range,
but for rows in nothing but a first frame that the range does not begin with.
-/
import Mathlib.Data.Int.Order.Basic
import Mathlib.Data.List.Pairwise
import ReportsFramework.FrameGroups
import ReportsFramework.KeyBlocks

namespace ReportsFramework

variable {ρ V σ : Type*}

/-- What `calcDataFn` answers for the rows of each frame, from the oldest frame on. -/
def answers (calcDataFn : CalcDataFn ρ V σ) (state : σ) : List (ℤ × List ρ) → List (ℤ × Option V)
  | [] => []
  | (frame, data) :: rest =>
      let (vals, state) := calcDataFn state data (some frame)
      (frame, vals) :: answers calcDataFn state rest

/-- The answers that are not empty. -/
def reported (results : List (ℤ × Option V)) : List (GroupItem V) :=
  results.filterMap fun result => result.2.map fun vals => ⟨result.1, vals⟩

theorem map_fst_answers (calcDataFn : CalcDataFn ρ V σ) (state : σ) (bs : List (ℤ × List ρ)) :
    (answers calcDataFn state bs).map Prod.fst = bs.map Prod.fst := by
  induction bs generalizing state with
  | nil => rfl
  | cons b rest ih =>
    rw [answers, List.map_cons, List.map_cons, ih]

theorem mem_reported {results : List (ℤ × Option V)} {item : GroupItem V} :
    item ∈ reported results ↔ (item.mts, some item.vals) ∈ results := by
  simp only [reported, List.mem_filterMap, Option.map_eq_some_iff]
  constructor
  · rintro ⟨⟨frame, vals⟩, hmem, vals', rfl, rfl⟩
    exact hmem
  · intro hmem
    exact ⟨_, hmem, _, rfl, rfl⟩

theorem mem_map_mts_reported {results : List (ℤ × Option V)} {n : ℤ} :
    n ∈ (reported results).map GroupItem.mts ↔
      ∃ result ∈ results, result.2.isSome ∧ result.1 = n := by
  rw [List.mem_map]
  constructor
  · rintro ⟨item, hitem, rfl⟩
    exact ⟨_, mem_reported.mp hitem, rfl, rfl⟩
  · rintro ⟨⟨frame, vals⟩, hmem, hsome, rfl⟩
    obtain ⟨vals, rfl⟩ := Option.isSome_iff_exists.mp hsome
    exact ⟨⟨frame, vals⟩, mem_reported.mpr hmem, rfl⟩

theorem map_mts_reported_sublist (results : List (ℤ × Option V)) :
    ((reported results).map GroupItem.mts).Sublist (results.map Prod.fst) := by
  induction results with
  | nil => exact .slnil
  | cons result rest ih =>
    obtain ⟨frame, vals⟩ := result
    cases vals with
    | none => exact .cons frame ih
    | some vals => exact .cons_cons frame ih

theorem reverse_reported_cons (frame : ℤ) (vals : Option V) (rest : List (ℤ × Option V))
    (res : List (GroupItem V)) : (reported ((frame, vals) :: rest)).reverse ++ res =
      (reported rest).reverse ++ ((vals.map fun vals => ⟨frame, vals⟩).toList ++ res) := by
  cases vals <;> simp [reported]

section Loop

variable {date : ρ → Option ℤ} {mts : ρ → ℤ} (timeframe : Timeframe)

/-- The oldest item of a group has the frame of all. -/
theorem exists_last {subRes : List ρ} {item : ρ} {frame : ℤ}
    (hdate : ∀ row ∈ item :: subRes, date row = some (mts row))
    (hframe : ∀ row ∈ item :: subRes, getStartMtsByTimeframe (mts row) timeframe = frame) :
    ∃ last, (item :: subRes).getLast?.bind date = some last ∧
      getStartMtsByTimeframe last timeframe = frame := by
  have hmem := List.getLast_mem (List.cons_ne_nil item subRes)
  refine ⟨mts ((item :: subRes).getLast (List.cons_ne_nil item subRes)), ?_, hframe _ hmem⟩
  rw [List.getLast?_eq_some_getLast (List.cons_ne_nil item subRes), Option.bind_some]
  exact hdate _ hmem

theorem getGroupItem_eq (calcDataFn : CalcDataFn ρ V σ) (state : σ) {data : List ρ} {last : ℤ}
    (hlast : data.getLast?.bind date = some last) :
    getGroupItem date calcDataFn timeframe state data =
      ((calcDataFn state data (some (getStartMtsByTimeframe last timeframe))).1.map fun vals =>
        ⟨getStartMtsByTimeframe last timeframe, vals⟩,
      (calcDataFn state data (some (getStartMtsByTimeframe last timeframe))).2) := by
  rw [getGroupItem, hlast]
  rfl

theorem checkTimeframe_eq {subRes : List ρ} {item next : ρ} {last first : ℤ}
    (hlast : (item :: subRes).getLast?.bind date = some last) (hfirst : date next = some first) :
    checkTimeframe date timeframe (some next :: (item :: subRes).map some) false =
      decide (getStartMtsByTimeframe first timeframe > getStartMtsByTimeframe last timeframe) := by
  have hlast' : (some next :: (item :: subRes).map some).getLast?.join.bind date = some last := by
    rw [List.map_cons, List.getLast?_cons_cons, ← List.map_cons, List.getLast?_map]
    cases hx : (item :: subRes).getLast? with
    | none => simp [hx] at hlast
    | some row => simpa [hx] using hlast
  unfold checkTimeframe
  dsimp only
  rw [hlast']
  simp [hfirst]

/-- The loop hands the blocks of the frames to `calcDataFn`, from the oldest on. -/
theorem groupLoop_eq (calcDataFn : CalcDataFn ρ V σ) (state : σ) {subRes : List ρ} {item : ρ}
    {rest : List ρ} (res : List (GroupItem V))
    (hdate : ∀ row ∈ item :: rest, date row = some (mts row))
    (hsorted : (item :: rest).Pairwise fun row row' => mts row ≤ mts row')
    (hsub : ∀ row ∈ subRes, date row = some (mts row) ∧
      getStartMtsByTimeframe (mts row) timeframe = getStartMtsByTimeframe (mts item) timeframe) :
    groupLoop date calcDataFn timeframe state subRes (item :: rest) res =
      (reported (answers calcDataFn state (KeyBlocks.addItems subRes
        (KeyBlocks.blocks (fun row => getStartMtsByTimeframe (mts row) timeframe)
          (item :: rest))))).reverse ++ res := by
  induction rest generalizing item subRes state res with
  | nil =>
    have hitem := hdate item List.mem_cons_self
    obtain ⟨last, hlast, hframe⟩ := exists_last timeframe
      (List.forall_mem_cons.mpr ⟨hitem, fun row hrow => (hsub row hrow).1⟩)
      (List.forall_mem_cons.mpr ⟨rfl, fun row hrow => (hsub row hrow).2⟩)
    rw [groupLoop, hitem]
    simp only [Option.isSome_some, if_true, List.isEmpty_nil, checkTimeframe, Bool.or_true]
    rw [getGroupItem_eq timeframe calcDataFn state hlast, hframe, groupLoop]
    rw [KeyBlocks.blocks_singleton, KeyBlocks.addItems, answers, reverse_reported_cons]
    rfl
  | cons next rest ih =>
    have hitem := hdate item List.mem_cons_self
    have hnext := hdate next (List.mem_cons_of_mem _ List.mem_cons_self)
    obtain ⟨hle, hsorted⟩ := List.pairwise_cons.mp hsorted
    have hdate := (List.forall_mem_cons.mp hdate).2
    obtain ⟨last, hlast, hframe⟩ := exists_last timeframe
      (List.forall_mem_cons.mpr ⟨hitem, fun row hrow => (hsub row hrow).1⟩)
      (List.forall_mem_cons.mpr ⟨rfl, fun row hrow => (hsub row hrow).2⟩)
    rw [groupLoop, hitem]
    simp only [Option.isSome_some, if_true, List.head?_cons, List.isEmpty_cons]
    rw [checkTimeframe_eq timeframe hlast hnext, hframe]
    by_cases hlt : getStartMtsByTimeframe (mts next) timeframe >
        getStartMtsByTimeframe (mts item) timeframe
    · -- the next item opens a frame
      rw [if_pos (by simpa using hlt), getGroupItem_eq timeframe calcDataFn state hlast, hframe]
      rw [ih _ _ hdate hsorted (by simp), KeyBlocks.addItems_nil]
      rw [KeyBlocks.blocks_cons_of_ne hlt.ne', KeyBlocks.addItems, answers, reverse_reported_cons]
      rfl
    · have hmono : getStartMtsByTimeframe (mts item) timeframe ≤
          getStartMtsByTimeframe (mts next) timeframe := by
        rw [getStartMtsByTimeframe_eq, getStartMtsByTimeframe_eq]
        exact timeframe.frames.start_mono (hle next List.mem_cons_self)
      have heq : getStartMtsByTimeframe (mts next) timeframe =
          getStartMtsByTimeframe (mts item) timeframe := by omega
      rw [if_neg (by simpa using hlt), ih _ _ hdate hsorted, KeyBlocks.blocks_cons_of_eq heq]
      · rw [KeyBlocks.addItems_addItems]
        rfl
      · rw [heq]
        exact List.forall_mem_cons.mpr ⟨⟨hitem, rfl⟩, hsub⟩

end Loop

theorem modifyLast_concat (f : ρ → ρ) (init : List ρ) (last : ρ) :
    modifyLast f (init ++ [last]) = init ++ [f last] := by
  induction init with
  | nil => rfl
  | cons item rest ih =>
    cases rest with
    | nil => rfl
    | cons next rest =>
      rw [List.cons_append, List.cons_append, modifyLast, ← List.cons_append, ih]
      · rfl
      · simp

section Mts

variable (timeframe : Timeframe)

/-- The loop steps through the frames up to the last. -/
theorem getMtsLoop_eq {first last : ℤ}
    (hvalid : ∀ n, first ≤ n → n ≤ last → Moment.isValid (timeframe.frames.boundary n) = true)
    (fuel : ℕ) (n : ℤ) (res : List (GroupItem ℤ)) (hfirst : first ≤ n) (hlast : n ≤ last + 1)
    (hfuel : last + 1 - n ≤ fuel) :
    getMtsLoop (timeframe.frames.boundary first) (timeframe.frames.boundary last) timeframe fuel
        (timeframe.frames.boundary n) res =
      ((List.range (last + 1 - n).toNat).map fun k : ℕ =>
        (⟨timeframe.frames.boundary (n + k), timeframe.frames.boundary (n + k)⟩ :
          GroupItem ℤ)).reverse ++ res := by
  induction fuel generalizing n res with
  | zero =>
    rw [show (last + 1 - n).toNat = 0 by omega]
    rfl
  | succ fuel ih =>
    by_cases hend : n = last + 1
    · have hlt := timeframe.frames.boundary_lt last
      rw [getMtsLoop, if_neg (by rw [hend]; omega), show (last + 1 - n).toNat = 0 by omega]
      rfl
    · have hlow := timeframe.frames.boundary_mono hfirst
      have hhigh := timeframe.frames.boundary_mono (n := n) (m := last) (by omega)
      rw [getMtsLoop, if_pos ⟨hvalid n hfirst (by omega), hlow, hhigh⟩, nextFrame_boundary,
        ih (n + 1) _ (by omega) (by omega) (by omega),
        show (last + 1 - n).toNat = (last + 1 - (n + 1)).toNat + 1 by omega,
        List.range_succ_eq_map, List.map_cons, List.map_map, List.reverse_cons, List.append_assoc]
      congr 2
      · apply List.map_congr_left
        intro k _
        simp only [Function.comp_apply, Nat.succ_eq_add_one, Int.natCast_add, Int.natCast_one]
        rw [show n + 1 + (k : ℤ) = n + (k + 1) by omega]
      · simp

/-- Without the end and the start of the range, the list is the one of the frames. -/
theorem getMtsGroupedByTimeframe_false {start stop : ℤ} (h : start ≤ stop)
    (hstart : Moment.isValid (timeframe.frames.start start) = true)
    (hstop : Moment.isValid stop = true) :
    getMtsGroupedByTimeframe start stop timeframe false =
      (timeframe.frames.between start stop).map fun b => ⟨b, b⟩ := by
  have hle := timeframe.frames.index_mono h
  have hstopLe := timeframe.frames.start_le stop
  have hvalid : ∀ n, timeframe.frames.index start ≤ n → n ≤ timeframe.frames.index stop →
      Moment.isValid (timeframe.frames.boundary n) = true := by
    intro n hlow hhigh
    have hlow := timeframe.frames.boundary_mono hlow
    have hhigh := timeframe.frames.boundary_mono hhigh
    simp only [Moment.isValid, decide_eq_true_eq] at hstart hstop ⊢
    unfold Frames.start at hstart hstopLe
    omega
  have hfuel : timeframe.frames.index stop + 1 - timeframe.frames.index start ≤
      (((timeframe.frames.start stop - timeframe.frames.start start) / Moment.msPerDay).toNat + 2 :
        ℕ) := by
    have hdays : timeframe.frames.index stop - timeframe.frames.index start ≤
        (timeframe.frames.start stop - timeframe.frames.start start) / Moment.msPerDay :=
      Frames.sub_le_scale_sub _ Moment.msPerDay (by decide) hle
    omega
  unfold getMtsGroupedByTimeframe
  simp only [getStartMtsByTimeframe_eq, Bool.false_eq_true, if_false]
  have hloop := getMtsLoop_eq timeframe hvalid _ (timeframe.frames.index start) []
    Int.le_rfl (by omega) hfuel
  rw [List.append_nil] at hloop
  refine hloop.trans ?_
  rw [Frames.between, List.map_reverse, List.map_map,
    show timeframe.frames.index stop + 1 - timeframe.frames.index start =
      timeframe.frames.index stop - timeframe.frames.index start + 1 by omega]
  rfl

/-- The list of the frames, the first and the last with the start and the end of the range. -/
theorem getMtsGroupedByTimeframe_true {start stop : ℤ} (h : start ≤ stop)
    (hstart : Moment.isValid (timeframe.frames.start start) = true)
    (hstop : Moment.isValid stop = true) :
    timeframe.frames.start start = timeframe.frames.start stop ∧
        getMtsGroupedByTimeframe start stop timeframe true =
          [⟨stop, timeframe.frames.start stop⟩] ∨
      timeframe.frames.start start < timeframe.frames.start stop ∧
        ∃ mid : List ℤ, getMtsGroupedByTimeframe start stop timeframe true =
          ⟨stop, timeframe.frames.start stop⟩ :: (mid.map fun b => ⟨b, b⟩) ++
            [⟨start, timeframe.frames.start start⟩] ∧ mid.Pairwise (· > ·) ∧
        ∀ b, b ∈ mid ↔ timeframe.frames.start b = b ∧ timeframe.frames.start start < b ∧
          b < timeframe.frames.start stop := by
  have htrue : getMtsGroupedByTimeframe start stop timeframe true =
      setMtsToStartingAndEndingFrames (getMtsGroupedByTimeframe start stop timeframe false)
        start stop none := rfl
  rw [htrue, getMtsGroupedByTimeframe_false timeframe h hstart hstop]
  rcases timeframe.frames.between_cases h with ⟨heq, hone⟩ | ⟨hlt, mid, hmid, hmem⟩
  · rw [hone]
    exact .inl ⟨heq, rfl⟩
  · have hpairwise := timeframe.frames.pairwise_between start stop
    rw [hmid] at hpairwise
    refine .inr ⟨hlt, mid, ?_,
      (List.pairwise_append.mp (List.pairwise_cons.mp hpairwise).2).1, hmem⟩
    rw [hmid, List.map_cons, List.map_append, setMtsToStartingAndEndingFrames, List.map_singleton,
      modifyLast_concat]
    rfl

/-- The timestamps of the frames of a range. -/
theorem mem_getMtsGroupedByTimeframe {start stop : ℤ} (h : start ≤ stop)
    (hstart : Moment.isValid (timeframe.frames.start start) = true)
    (hstop : Moment.isValid stop = true) (m : ℤ) :
    m ∈ (getMtsGroupedByTimeframe start stop timeframe true).map GroupItem.mts ↔
      m = stop ∨
      timeframe.frames.start start < timeframe.frames.start stop ∧ m = start ∨
      timeframe.frames.start m = m ∧ timeframe.frames.start start < m ∧
        m < timeframe.frames.start stop := by
  rcases getMtsGroupedByTimeframe_true timeframe h hstart hstop with
    ⟨heq, hone⟩ | ⟨hlt, mid, hmid, _, hmem⟩
  · rw [hone, List.map_singleton, List.mem_singleton]
    constructor
    · exact .inl
    · rintro (hm | hm | hm)
      · exact hm
      · omega
      · omega
  · rw [hmid]
    simp only [List.cons_append, List.map_cons, List.map_append, List.map_map, List.map_nil,
      List.mem_cons, List.mem_append, List.mem_map, Function.comp_apply, exists_eq_right, hmem,
      List.not_mem_nil, or_false]
    tauto

theorem vals_of_mem_getMtsGroupedByTimeframe {start stop : ℤ} (h : start ≤ stop)
    (hstart : Moment.isValid (timeframe.frames.start start) = true)
    (hstop : Moment.isValid stop = true) {item : GroupItem ℤ}
    (hitem : item ∈ getMtsGroupedByTimeframe start stop timeframe true) :
    item.vals = timeframe.frames.start item.mts := by
  rcases getMtsGroupedByTimeframe_true timeframe h hstart hstop with
    ⟨_, hone⟩ | ⟨_, mid, hmid, _, hmem⟩
  · rw [hone] at hitem
    rw [List.mem_singleton.mp hitem]
  · rw [hmid, List.cons_append, List.mem_cons, List.mem_append] at hitem
    rcases hitem with rfl | hitem | hitem
    · rfl
    · obtain ⟨b, hb, rfl⟩ := List.mem_map.mp hitem
      exact ((hmem b).mp hb).1.symm
    · rw [List.mem_singleton.mp hitem]

theorem pairwise_getMtsGroupedByTimeframe {start stop : ℤ} (h : start ≤ stop)
    (hstart : Moment.isValid (timeframe.frames.start start) = true)
    (hstop : Moment.isValid stop = true) :
    (getMtsGroupedByTimeframe start stop timeframe true).Pairwise fun item item' =>
      item.mts > item'.mts := by
  have hstopLe := timeframe.frames.start_le stop
  rcases getMtsGroupedByTimeframe_true timeframe h hstart hstop with
    ⟨_, hone⟩ | ⟨hlt, mid, hmid, hpairwise, hmem⟩
  · rw [hone]
    exact List.pairwise_singleton _ _
  · -- the start of the range is before all frames but its own
    have hbefore : ∀ b, timeframe.frames.start b = b → timeframe.frames.start start < b →
        start < b := by
      intro b hb hlow
      by_contra hle
      have := timeframe.frames.start_mono (t := b) (u := start) (by omega)
      omega
    have hstopStart := hbefore _ (timeframe.frames.start_start stop) hlt
    rw [hmid, List.cons_append]
    refine List.pairwise_cons.mpr ⟨?_, List.pairwise_append.mpr
      ⟨List.pairwise_map.mpr hpairwise, List.pairwise_singleton _ _, ?_⟩⟩
    · intro item hitem
      rcases List.mem_append.mp hitem with hitem | hitem
      · obtain ⟨b, hb, rfl⟩ := List.mem_map.mp hitem
        have := (hmem b).mp hb
        dsimp only
        omega
      · rw [List.mem_singleton.mp hitem]
        dsimp only
        omega
    · intro item hitem item' hitem'
      obtain ⟨b, hb, rfl⟩ := List.mem_map.mp hitem
      rw [List.mem_singleton.mp hitem']
      exact hbefore b ((hmem b).mp hb).1 ((hmem b).mp hb).2.1

/-- Every frame of the range has a timestamp in the list, and one only. -/
theorem exists_mts_of_frame {start stop frame : ℤ} (h : start ≤ stop)
    (hstart : Moment.isValid (timeframe.frames.start start) = true)
    (hstop : Moment.isValid stop = true) (hframe : timeframe.frames.start frame = frame)
    (hlow : timeframe.frames.start start ≤ frame) (hhigh : frame ≤ timeframe.frames.start stop) :
    ∃ m ∈ (getMtsGroupedByTimeframe start stop timeframe true).map GroupItem.mts,
      timeframe.frames.start m = frame := by
  simp only [mem_getMtsGroupedByTimeframe timeframe h hstart hstop]
  by_cases hend : frame = timeframe.frames.start stop
  · exact ⟨stop, .inl rfl, hend.symm⟩
  · by_cases hbegin : frame = timeframe.frames.start start
    · exact ⟨start, .inr (.inl ⟨by omega, rfl⟩), hbegin.symm⟩
    · exact ⟨frame, .inr (.inr ⟨hframe, by omega, by omega⟩), hframe⟩

theorem mts_inj {start stop m m' : ℤ} (h : start ≤ stop)
    (hstart : Moment.isValid (timeframe.frames.start start) = true)
    (hstop : Moment.isValid stop = true)
    (hm : m ∈ (getMtsGroupedByTimeframe start stop timeframe true).map GroupItem.mts)
    (hm' : m' ∈ (getMtsGroupedByTimeframe start stop timeframe true).map GroupItem.mts)
    (heq : timeframe.frames.start m = timeframe.frames.start m') : m = m' := by
  rw [mem_getMtsGroupedByTimeframe timeframe h hstart hstop] at hm hm'
  rcases hm with rfl | ⟨hlt, rfl⟩ | ⟨hframe, hlow, hhigh⟩
  · rcases hm' with rfl | ⟨hlt, rfl⟩ | ⟨hframe, hlow, hhigh⟩ <;> omega
  · rcases hm' with rfl | ⟨hlt, rfl⟩ | ⟨hframe, hlow, hhigh⟩ <;> omega
  · rcases hm' with rfl | ⟨hlt, rfl⟩ | ⟨hframe', hlow, hhigh⟩ <;> omega

end Mts

section Alignment

variable {date : ρ → Option ℤ} {mts : ρ → ℤ} {timeframe : Timeframe} {start stop : ℤ}

/-- The range begins inside its first frame and ends in a later one, and the rows give
something to report in the first frame and in no other. -/
def OnlyInBrokenFirstFrame (timeframe : Timeframe) (start stop : ℤ)
    (results : List (ℤ × Option V)) : Prop :=
  getStartMtsByTimeframe start timeframe ≠ start ∧
    getStartMtsByTimeframe start timeframe ≠ getStartMtsByTimeframe stop timeframe ∧
    (∃ result ∈ results, result.2.isSome) ∧
    ∀ result ∈ results, result.2.isSome → result.1 = getStartMtsByTimeframe start timeframe

/-- The rows of each frame, from the oldest frame on. -/
def frameBlocks (timeframe : Timeframe) (mts : ρ → ℤ) (data : List ρ) : List (ℤ × List ρ) :=
  KeyBlocks.blocks (fun row => getStartMtsByTimeframe (mts row) timeframe) data.reverse

/-- The groups before the first and the last get the start and the end of the range. -/
theorem groupByTimeframe_eq (calcDataFn : CalcDataFn ρ V σ) (state : σ) {data : List ρ}
    (hdate : ∀ row ∈ data, date row = some (mts row))
    (hsorted : data.Pairwise fun row row' => mts row' ≤ mts row) :
    groupByTimeframe date calcDataFn timeframe state data start stop =
      setMtsToStartingAndEndingFrames (reported (answers calcDataFn state
        (frameBlocks timeframe mts data))).reverse start stop (some timeframe) := by
  unfold groupByTimeframe frameBlocks
  congr 1
  cases hrev : data.reverse with
  | nil => rfl
  | cons item rest =>
    have hdate' : ∀ row ∈ item :: rest, date row = some (mts row) := by
      intro row hrow
      rw [← hrev, List.mem_reverse] at hrow
      exact hdate row hrow
    have hsorted' : (item :: rest).Pairwise fun row row' => mts row ≤ mts row' := by
      rw [← hrev]
      exact List.pairwise_reverse.mpr hsorted
    rw [groupLoop_eq timeframe calcDataFn state [] hdate' hsorted' (by simp),
      KeyBlocks.addItems_nil, List.append_nil]

/-- The blocks of rows of a range: increasing frames of the range. -/
theorem pairwise_frames (timeframe : Timeframe) {data : List ρ}
    (hsorted : data.Pairwise fun row row' => mts row' ≤ mts row) :
    ((frameBlocks timeframe mts data).map Prod.fst).Pairwise (· < ·) := by
  apply KeyBlocks.pairwise_keys
  refine (List.pairwise_reverse.mpr hsorted).imp ?_
  intro row row' hle
  rw [getStartMtsByTimeframe_eq, getStartMtsByTimeframe_eq]
  exact timeframe.frames.start_mono hle

/-- An answer is about the frame of a row. -/
theorem exists_row_of_answer {calcDataFn : CalcDataFn ρ V σ} {state : σ} {data : List ρ}
    {result : ℤ × Option V} (hresult : result ∈ answers calcDataFn state
      (frameBlocks timeframe mts data)) :
    ∃ row ∈ data, timeframe.frames.start (mts row) = result.1 := by
  have hkey := List.mem_map_of_mem (f := Prod.fst) hresult
  rw [map_fst_answers] at hkey
  obtain ⟨row, hrow, heq⟩ := KeyBlocks.mem_keys.mp hkey
  rw [getStartMtsByTimeframe_eq] at heq
  exact ⟨row, List.mem_reverse.mp hrow, heq⟩

theorem mts_moveTo (mts : ℤ) {item : GroupItem V}
    (hframe : timeframe.frames.start item.mts = item.mts) :
    (item.moveTo mts (some timeframe)).mts =
      if timeframe.frames.start mts = item.mts then mts else item.mts := by
  simp only [GroupItem.moveTo, getMtsIfInTimeframe, getStartMtsByTimeframe_eq, hframe]

theorem moveTo_native (mts : ℤ) {item : GroupItem V}
    (hframe : timeframe.frames.start item.mts = item.mts) :
    timeframe.frames.start (item.moveTo mts (some timeframe)).mts = item.mts := by
  rw [mts_moveTo mts hframe]
  split_ifs with heq
  · exact heq
  · exact hframe

/-- Moved or not, an item has the vals and the frame it had. -/
theorem map_setMts (start stop : ℤ) {items : List (GroupItem V)}
    (hframes : ∀ item ∈ items, timeframe.frames.start item.mts = item.mts) :
    (setMtsToStartingAndEndingFrames items start stop (some timeframe)).map
        (fun item => (timeframe.frames.start item.mts, item.vals)) =
      items.map fun item => (item.mts, item.vals) := by
  cases items with
  | nil => rfl
  | cons first rest =>
    obtain ⟨hfirst, hrest⟩ := List.forall_mem_cons.mp hframes
    rw [setMtsToStartingAndEndingFrames, List.map_cons, List.map_cons, moveTo_native stop hfirst]
    congr 1
    rcases List.eq_nil_or_concat' rest with rfl | ⟨mid, last, rfl⟩
    · rfl
    · rw [modifyLast_concat, List.map_append, List.map_append, List.map_singleton,
        List.map_singleton, moveTo_native start (hrest last (by simp))]
      congr 1
      apply List.map_congr_left
      intro item hitem
      rw [hrest item (by simp [hitem])]

/-- Of frames of the range, the first alone is left where the range does not begin. -/
theorem aligned_iff (h : start ≤ stop)
    (hstart : Moment.isValid (timeframe.frames.start start) = true)
    (hstop : Moment.isValid stop = true) {items : List (GroupItem V)}
    (hitems : (items.map GroupItem.mts).Pairwise (· > ·))
    (hframes : ∀ item ∈ items, timeframe.frames.start item.mts = item.mts ∧
      timeframe.frames.start start ≤ item.mts ∧ item.mts ≤ timeframe.frames.start stop) :
    (∀ item ∈ setMtsToStartingAndEndingFrames items start stop (some timeframe),
      item.mts ∈ (getMtsGroupedByTimeframe start stop timeframe true).map GroupItem.mts) ↔
    ¬ (timeframe.frames.start start ≠ start ∧
      timeframe.frames.start start ≠ timeframe.frames.start stop ∧
      items.map GroupItem.mts = [timeframe.frames.start start]) := by
  have hmono := timeframe.frames.start_mono h
  have hstopLe := timeframe.frames.start_le stop
  simp only [mem_getMtsGroupedByTimeframe timeframe h hstart hstop]
  cases items with
  | nil => simp [setMtsToStartingAndEndingFrames]
  | cons first rest =>
    obtain ⟨hfirst, hrest⟩ := List.forall_mem_cons.mp hframes
    rcases List.eq_nil_or_concat' rest with rfl | ⟨mid, last, rfl⟩
    · simp only [setMtsToStartingAndEndingFrames, modifyLast, List.mem_singleton, forall_eq,
        mts_moveTo stop hfirst.1, List.map_cons, List.map_nil, List.cons.injEq, and_true]
      split_ifs with hend
      · refine iff_of_true (.inl rfl) ?_
        rintro ⟨_, hne, heq⟩
        omega
      · rw [hfirst.1]
        constructor
        · rintro (hm | ⟨_, hm⟩ | hm)
          · omega
          · omega
          · omega
        · intro hnot
          by_cases hin : first.mts = timeframe.frames.start start
          · refine .inr (.inl ⟨by omega, ?_⟩)
            by_contra hne
            exact hnot ⟨by omega, by omega, hin⟩
          · exact .inr (.inr ⟨rfl, by omega, by omega⟩)
    · refine iff_of_true ?_ (by simp)
      rw [List.map_cons, List.map_append, List.map_singleton] at hitems
      obtain ⟨hbelow, hpairwise⟩ := List.pairwise_cons.mp hitems
      have hbefore := (List.pairwise_append.mp hpairwise).2.2
      have hlast := hrest last (by simp)
      have hltLast := hbelow last.mts (by simp)
      rw [setMtsToStartingAndEndingFrames, modifyLast_concat]
      intro item hitem
      rcases List.mem_cons.mp hitem with rfl | hitem
      · rw [mts_moveTo stop hfirst.1]
        split_ifs with hend
        · exact .inl rfl
        · exact .inr (.inr ⟨hfirst.1, by omega, by omega⟩)
      · rcases List.mem_append.mp hitem with hmid | hlastItem
        · have hframe := hrest item (by simp [hmid])
          have hlt := hbelow item.mts (by simp [List.mem_map_of_mem hmid])
          have hgt := hbefore item.mts (List.mem_map_of_mem hmid) last.mts (by simp)
          exact .inr (.inr ⟨hframe.1, by omega, by omega⟩)
        · obtain rfl := List.mem_singleton.mp hlastItem
          rw [mts_moveTo start hlast.1]
          split_ifs with hbegin
          · exact .inr (.inl ⟨by omega, rfl⟩)
          · exact .inr (.inr ⟨hlast.1, by omega, by omega⟩)

/-- A strictly decreasing list with nothing but one value. -/
theorem eq_singleton_iff {l : List ℤ} (h : l.Pairwise (· > ·)) (m : ℤ) :
    l = [m] ↔ (∃ n, n ∈ l) ∧ ∀ n ∈ l, n = m := by
  constructor
  · rintro rfl
    simp
  · rintro ⟨⟨n, hn⟩, hall⟩
    cases l with
    | nil => simp at hn
    | cons first rest =>
      cases rest with
      | nil => rw [hall first (by simp)]
      | cons next rest =>
        have hlt := (List.pairwise_cons.mp h).1 next (by simp)
        have := hall first (by simp)
        have := hall next (by simp)
        omega

/-- The groups are what `calcDataFn` answers for the frames their timestamps are in. -/
theorem map_groupByTimeframe (timeframe : Timeframe) (start stop : ℤ)
    (calcDataFn : CalcDataFn ρ V σ) (state : σ)
    {data : List ρ} (hdate : ∀ row ∈ data, date row = some (mts row))
    (hsorted : data.Pairwise fun row row' => mts row' ≤ mts row) :
    (groupByTimeframe date calcDataFn timeframe state data start stop).map
        (fun item => (timeframe.frames.start item.mts, item.vals)) =
      (reported (answers calcDataFn state (frameBlocks timeframe mts data))).reverse.map
        fun item => (item.mts, item.vals) := by
  rw [groupByTimeframe_eq calcDataFn state hdate hsorted]
  apply map_setMts
  intro item hitem
  obtain ⟨row, _, heq⟩ := exists_row_of_answer (mem_reported.mp (List.mem_reverse.mp hitem))
  dsimp only at heq
  rw [← heq]
  exact timeframe.frames.start_start _

/-- The groups have decreasing timestamps. -/
theorem pairwise_groupByTimeframe (mts : ρ → ℤ) (timeframe : Timeframe) (start stop : ℤ)
    (calcDataFn : CalcDataFn ρ V σ) (state : σ) {data : List ρ}
    (hdate : ∀ row ∈ data, date row = some (mts row))
    (hsorted : data.Pairwise fun row row' => mts row' ≤ mts row) :
    (groupByTimeframe date calcDataFn timeframe state data start stop).Pairwise fun item item' =>
      item.mts > item'.mts := by
  have hpairwise := pairwise_frames timeframe hsorted
  rw [← map_fst_answers calcDataFn state] at hpairwise
  have hmts := List.pairwise_reverse.mpr
    (hpairwise.sublist (map_mts_reported_sublist (answers calcDataFn state
      (frameBlocks timeframe mts data))))
  have hmap := congrArg (List.map Prod.fst)
    (map_groupByTimeframe timeframe start stop calcDataFn state hdate hsorted)
  rw [List.map_map, List.map_map] at hmap
  rw [← List.map_reverse] at hmts
  have hstarts := List.pairwise_map.mp (hmap.symm ▸ hmts)
  refine hstarts.imp ?_
  intro item item' hgt
  by_contra hle
  have := timeframe.frames.start_mono (t := item.mts) (u := item'.mts) (by omega)
  simp only [Function.comp_apply] at hgt
  omega

/-- In a range that begins with a frame, the groups have timestamps of the list of frames. -/
theorem mem_mts_of_aligned (mts : ρ → ℤ) (calcDataFn : CalcDataFn ρ V σ) (state : σ)
    {data : List ρ} (h : start ≤ stop) (haligned : getStartMtsByTimeframe start timeframe = start)
    (hstart : Moment.isValid start = true) (hstop : Moment.isValid stop = true)
    (hdate : ∀ row ∈ data, date row = some (mts row))
    (hsorted : data.Pairwise fun row row' => mts row' ≤ mts row)
    (hrange : ∀ row ∈ data, start ≤ mts row ∧ mts row ≤ stop) :
    ∀ item ∈ groupByTimeframe date calcDataFn timeframe state data start stop,
      item.mts ∈ (getMtsGroupedByTimeframe start stop timeframe true).map GroupItem.mts := by
  rw [getStartMtsByTimeframe_eq] at haligned
  have hpairwise := pairwise_frames timeframe hsorted
  rw [← map_fst_answers calcDataFn state] at hpairwise
  rw [groupByTimeframe_eq calcDataFn state hdate hsorted]
  apply (aligned_iff h (by rwa [haligned]) hstop _ _).mpr
  · exact fun hbroken => hbroken.1 haligned
  · rw [List.map_reverse]
    exact List.pairwise_reverse.mpr (hpairwise.sublist (map_mts_reported_sublist _))
  · intro item hitem
    obtain ⟨row, hrow, heq⟩ := exists_row_of_answer (mem_reported.mp (List.mem_reverse.mp hitem))
    have hin := hrange row hrow
    dsimp only at heq
    rw [← heq]
    exact ⟨timeframe.frames.start_start _, timeframe.frames.start_mono hin.1,
      timeframe.frames.start_mono hin.2⟩

/-- The rows are handed to `calcDataFn` in groups, from the oldest on: laid end to end they
are the rows as they were given, each group is one frame of its own, and what is returned
for them has decreasing timestamps. -/
theorem groupByTimeframe_partition (timeframe : Timeframe) (start stop : ℤ)
    (calcDataFn : CalcDataFn ρ V σ) (state : σ) {data : List ρ}
    (hdate : ∀ row ∈ data, date row = some (mts row))
    (hsorted : data.Pairwise fun row row' => mts row' ≤ mts row) :
    ∃ groups : List (ℤ × List ρ),
      groupByTimeframe date calcDataFn timeframe state data start stop =
        setMtsToStartingAndEndingFrames (reported (answers calcDataFn state groups)).reverse
          start stop (some timeframe) ∧
      groups.reverse.flatMap Prod.snd = data ∧
      (∀ group ∈ groups, group.2 ≠ [] ∧
        ∀ row ∈ group.2, getStartMtsByTimeframe (mts row) timeframe = group.1) ∧
      (groups.map Prod.fst).Pairwise (· < ·) ∧
      (groupByTimeframe date calcDataFn timeframe state data start stop).Pairwise fun item item' =>
        item.mts > item'.mts := by
  refine ⟨frameBlocks timeframe mts data, groupByTimeframe_eq calcDataFn state hdate hsorted,
    ?_, ?_, pairwise_frames timeframe hsorted,
    pairwise_groupByTimeframe mts timeframe start stop calcDataFn state hdate hsorted⟩
  · have hall := KeyBlocks.flatMap_reverse_filter_blocks
      (fun row => getStartMtsByTimeframe (mts row) timeframe) data.reverse fun _ => true
    rw [frameBlocks]
    simpa only [List.filter_true, List.reverse_reverse] using hall
  · intro group hgroup
    have hascending : data.reverse.Pairwise fun row row' =>
        getStartMtsByTimeframe (mts row) timeframe ≤
          getStartMtsByTimeframe (mts row') timeframe := by
      apply (List.pairwise_reverse.mpr hsorted).imp
      intro row row' hle
      rw [getStartMtsByTimeframe_eq, getStartMtsByTimeframe_eq]
      exact timeframe.frames.start_mono hle
    constructor
    · exact KeyBlocks.data_ne_nil hgroup
    · intro row hrow
      rw [KeyBlocks.data_eq hascending hgroup, List.mem_reverse, List.mem_filter] at hrow
      exact of_decide_eq_true hrow.2

/-- Every timestamp of the grouped rows is one of the frames of the range, if and only if
the rows are not in nothing but a first frame that the range begins inside of. -/
theorem groupByTimeframe_aligned_iff (mts : ρ → ℤ) (calcDataFn : CalcDataFn ρ V σ) (state : σ)
    {data : List ρ} (h : start ≤ stop)
    (hstart : Moment.isValid (getStartMtsByTimeframe start timeframe) = true)
    (hstop : Moment.isValid stop = true) (hdate : ∀ row ∈ data, date row = some (mts row))
    (hsorted : data.Pairwise fun row row' => mts row' ≤ mts row)
    (hrange : ∀ row ∈ data, start ≤ mts row ∧ mts row ≤ stop) :
    (∀ item ∈ groupByTimeframe date calcDataFn timeframe state data start stop,
      item.mts ∈ (getMtsGroupedByTimeframe start stop timeframe true).map GroupItem.mts) ↔
    ¬ OnlyInBrokenFirstFrame timeframe start stop (answers calcDataFn state
      (frameBlocks timeframe mts data)) := by
  have hpairwise := pairwise_frames timeframe hsorted
  rw [← map_fst_answers calcDataFn state] at hpairwise
  have hmem : ∀ result ∈ answers calcDataFn state
      (frameBlocks timeframe mts data),
      timeframe.frames.start result.1 = result.1 ∧ timeframe.frames.start start ≤ result.1 ∧
        result.1 ≤ timeframe.frames.start stop := by
    intro result hresult
    obtain ⟨row, hrow, heq⟩ := exists_row_of_answer hresult
    have hin := hrange row hrow
    rw [← heq]
    exact ⟨timeframe.frames.start_start _, timeframe.frames.start_mono hin.1,
      timeframe.frames.start_mono hin.2⟩
  rw [groupByTimeframe_eq calcDataFn state hdate hsorted]
  rw [getStartMtsByTimeframe_eq] at hstart
  unfold OnlyInBrokenFirstFrame
  simp only [getStartMtsByTimeframe_eq start, getStartMtsByTimeframe_eq stop]
  generalize answers calcDataFn state
    (frameBlocks timeframe mts data) =
    results at hpairwise hmem ⊢
  have hdecreasing : ((reported results).reverse.map GroupItem.mts).Pairwise (· > ·) := by
    rw [List.map_reverse]
    exact List.pairwise_reverse.mpr (hpairwise.sublist (map_mts_reported_sublist results))
  rw [aligned_iff h hstart hstop hdecreasing]
  · rw [eq_singleton_iff hdecreasing]
    simp only [List.map_reverse, List.mem_reverse, mem_map_mts_reported]
    refine not_congr (and_congr_right fun _ => and_congr_right fun _ => and_congr ?_ ?_)
    · constructor
      · rintro ⟨_, result, hresult, hsome, _⟩
        exact ⟨result, hresult, hsome⟩
      · rintro ⟨result, hresult, hsome⟩
        exact ⟨_, result, hresult, hsome, rfl⟩
    · constructor
      · intro hall result hresult hsome
        exact hall _ ⟨result, hresult, hsome, rfl⟩
      · rintro hall _ ⟨result, hresult, hsome, rfl⟩
        exact hall result hresult hsome
  · intro item hitem
    exact hmem _ (mem_reported.mp (List.mem_reverse.mp hitem))

/-- In a range that begins with a frame, the group at a timestamp of the list is what
`calcDataFn` answers for the frame. -/
theorem mem_groupByTimeframe_iff (mts : ρ → ℤ) (calcDataFn : CalcDataFn ρ V σ) (state : σ)
    {data : List ρ} (h : start ≤ stop) (haligned : getStartMtsByTimeframe start timeframe = start)
    (hstart : Moment.isValid start = true) (hstop : Moment.isValid stop = true)
    (hdate : ∀ row ∈ data, date row = some (mts row))
    (hsorted : data.Pairwise fun row row' => mts row' ≤ mts row)
    (hrange : ∀ row ∈ data, start ≤ mts row ∧ mts row ≤ stop) {m : ℤ}
    (hm : m ∈ (getMtsGroupedByTimeframe start stop timeframe true).map GroupItem.mts) (vals : V) :
    ⟨m, vals⟩ ∈ groupByTimeframe date calcDataFn timeframe state data start stop ↔
      (timeframe.frames.start m, some vals) ∈ answers calcDataFn state
        (frameBlocks timeframe mts data) := by
  have hmts := mem_mts_of_aligned mts calcDataFn state h haligned hstart hstop hdate hsorted hrange
  rw [getStartMtsByTimeframe_eq] at haligned
  have hmap := map_groupByTimeframe timeframe start stop calcDataFn state hdate hsorted
  constructor
  · intro hmem
    have hpair := List.mem_map_of_mem (f := fun item : GroupItem V =>
      (timeframe.frames.start item.mts, item.vals)) hmem
    rw [hmap] at hpair
    obtain ⟨item, hitem, heq⟩ := List.mem_map.mp hpair
    rw [Prod.mk.injEq] at heq
    have hanswer := mem_reported.mp (List.mem_reverse.mp hitem)
    rwa [heq.1, heq.2] at hanswer
  · intro hanswer
    have hitem : ⟨timeframe.frames.start m, vals⟩ ∈ (reported (answers calcDataFn state
        (frameBlocks timeframe mts data))).reverse :=
      List.mem_reverse.mpr (mem_reported.mpr hanswer)
    have hpair := List.mem_map_of_mem (f := fun item : GroupItem V => (item.mts, item.vals)) hitem
    rw [← hmap] at hpair
    obtain ⟨⟨m', vals'⟩, hitem, heq⟩ := List.mem_map.mp hpair
    rw [Prod.mk.injEq] at heq
    have hsame := mts_inj timeframe h (by rwa [haligned]) hstop (hmts _ hitem) hm heq.1
    dsimp only at hsame heq
    rwa [heq.2, hsame] at hitem

end Alignment

namespace MonthsWitness

/-- 15 January 2021. -/
def start : ℤ := 1610668800000

/-- 10 March 2021. -/
def stop : ℤ := 1615334400000

/-- One row, of 20 January. -/
def january : List ℤ := [1611100800000]

/-- A row of 3 February before it. -/
def february : List ℤ := [1612310400000, 1611100800000]

/-- The number of the rows. -/
def count : CalcDataFn ℤ ℕ Unit := fun _ data _ => (some data.length, ())

/-- The group of January stands at its first, the list of the months at 15 January. -/
theorem january_split :
    (groupByTimeframe some count .month () january start stop).map GroupItem.mts =
        [1609459200000] ∧
      (getMtsGroupedByTimeframe start stop .month true).map GroupItem.mts =
        [stop, 1612137600000, start] ∧
      ¬ ∀ item ∈ groupByTimeframe some count .month () january start stop,
        item.mts ∈ (getMtsGroupedByTimeframe start stop .month true).map GroupItem.mts := by
  refine ⟨by decide +kernel, by decide +kernel, by decide +kernel⟩

theorem groupByTimeframe_aligned_iff_february :
    (groupByTimeframe some count .month () february start stop).map GroupItem.mts =
        [1612137600000, start] ∧
      ∀ item ∈ groupByTimeframe some count .month () february start stop,
        item.mts ∈ (getMtsGroupedByTimeframe start stop .month true).map GroupItem.mts := by
  refine ⟨by decide +kernel, ?_⟩
  apply (groupByTimeframe_aligned_iff id count () (by decide) (by decide) (by decide)
    (fun _ _ => rfl) (by decide) (by decide)).mpr
  rintro ⟨_, _, _, hall⟩
  have := hall (1612137600000, some 1) (by decide) rfl
  revert this
  decide

/-- Two groups of one row each. -/
theorem groupByTimeframe_partition_february : ∃ groups : List (ℤ × List ℤ),
    groupByTimeframe some count .month () february start stop =
      setMtsToStartingAndEndingFrames (reported (answers count () groups)).reverse
        start stop (some .month) ∧
    groups.reverse.flatMap Prod.snd = february ∧
    (∀ group ∈ groups, group.2 ≠ [] ∧
      ∀ row ∈ group.2, getStartMtsByTimeframe row .month = group.1) ∧
    (groups.map Prod.fst).Pairwise (· < ·) ∧
    (groupByTimeframe some count .month () february start stop).Pairwise fun item item' =>
      item.mts > item'.mts :=
  @groupByTimeframe_partition ℤ ℕ Unit some id .month start stop count () february
    (fun _ _ => rfl) (by decide)

end MonthsWitness

end ReportsFramework
