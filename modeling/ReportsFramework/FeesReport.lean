/-
The report of the total fees: the ledgers of fees summed by frame, with the sum of all frames so
far.  A report can be taken in parts: the frames are the same, and the cumulative sums of the later
part go on from the earlier one.
-/
import ReportsFramework.FrameSums

namespace ReportsFramework.TotalFeesReport

open CalcGroupedData FrameSums

/-- What the report reads of a ledger. -/
structure Ledger where
  mts : ℤ
  currency : String
  _category : ℕ
  user_id : ℕ
  _isBalanceRecalced : Option ℕ
  amountUsd : Option ℚ
  deriving DecidableEq

structure User where
  _id : ℕ
  isSubAccount : Bool

structure Params where
  start : ℤ
  stop : ℤ
  timeframe : Timeframe
  symbol : List String
  isTradingFees : Bool
  isFundingFees : Bool

/-- `_getLedgersFilter`: the categories, `none` for a `TotalFeesParamsFlagError`. -/
def getLedgersFilter (params : Params) : Option (List ℕ) :=
  if !params.isTradingFees && !params.isFundingFees then none
  else
    some ((if params.isTradingFees then [201] else []) ++
      if params.isFundingFees then [27, 226, 228, 29] else [])

/-- The ledgers of fees of the user, and of the currencies if there are some. -/
def isSelected (user : User) (params : Params) (categories : List ℕ) (ledger : Ledger) : Bool :=
  let symbol := params.symbol.filter (· ≠ "")
  categories.contains ledger._category &&
    (symbol.isEmpty || symbol.contains ledger.currency) && ledger.user_id = user._id &&
    (!user.isSubAccount || ledger._isBalanceRecalced = some 1)

/-- The filter of the query of the ledgers. -/
def isFee (user : User) (params : Params) (categories : List ℕ) (ledger : Ledger) : Bool :=
  isSelected user params categories ledger && ledger.mts ≤ params.stop &&
    params.start ≤ ledger.mts

/-- `_getLedgers`: the newest first. -/
def getLedgers (stored : List Ledger) (user : User) (params : Params) (categories : List ℕ) :
    List Ledger :=
  (stored.filter (isFee user params categories)).insertionSort fun ledger ledger' =>
    ledger'.mts ≤ ledger.mts

/-- `_calcLedgers`. -/
def calcLedgers (data : List Ledger) : Option ℚ :=
  data.foldl
    (fun accum curr =>
      match curr.amountUsd with
      | none => accum
      | some amountUsd =>
          let _amountUsd := if amountUsd ≠ 0 then amountUsd * -1 else amountUsd
          some (accum.elim _amountUsd (· + _amountUsd)))
    none

structure Fees where
  cumulative : ℚ
  USD : ℚ
deriving DecidableEq

/-- `_calcPrevAmount`. -/
def calcPrevAmount (usdAmount : Option ℚ) (cumulative : ℚ) : ℚ :=
  match usdAmount with
  | some amount => amount + cumulative
  | none => cumulative

/-- The function of `_getLedgersByTimeframe`, whose state is `cumulative`. -/
def getLedgersByTimeframe (cumulative : ℚ) (ledgersGroupedByTimeframe : Option ℚ) : Fees × ℚ :=
  let cumulative := calcPrevAmount ledgersGroupedByTimeframe cumulative
  (⟨cumulative, ledgersGroupedByTimeframe.getD 0⟩, cumulative)

/-- The fees grouped by their frames, from the newest on. -/
def groupedData (ledgersGroupedByTimeframe : List (GroupItem ℚ)) : List (GroupItem Fees) :=
  (calcGroupedData [()] (seriesOf fun _ : Unit => ledgersGroupedByTimeframe)
    (fromOldest fun _ cumulative item =>
      (some (getLedgersByTimeframe cumulative (item.1.vals ())).1,
        (getLedgersByTimeframe cumulative (item.1.vals ())).2)) true 0).1

def getTotalFeesReport (stored : List Ledger) (user : User) (params : Params) :
    Option (List (GroupItem Fees)) :=
  (getLedgersFilter params).map fun categories =>
    groupedData (groupByTimeframe (fun ledger => some ledger.mts) (stateless calcLedgers)
      params.timeframe () (getLedgers stored user params categories) params.start params.stop)

section Values

/-- The fee of a ledger. -/
def feeOf (ledger : Ledger) : Option ℚ := ledger.amountUsd.map (- ·)

theorem calcLedgers_eq : calcLedgers = sumOfFinite feeOf := by
  funext data
  rw [calcLedgers, sumOfFinite]
  congr 1
  funext accum ledger
  unfold addFinite feeOf
  cases ledger.amountUsd with
  | none => rfl
  | some amountUsd =>
      have hneg : (if amountUsd ≠ 0 then amountUsd * -1 else amountUsd) = -amountUsd := by
        split_ifs with h
        · rw [mul_neg_one]
        · rw [not_ne_iff.mp h, neg_zero]
      simp only [Option.map_some, Option.elim_some, hneg]

theorem runFrames_fees (isFirst : Bool) (cumulative : ℚ) (items : List (GroupItem ℚ)) :
    List.zipWith (fun (item : GroupItem ℚ) fees => (⟨item.mts, fees⟩ : GroupItem Fees)) items
        (runFrames (fun _ => getLedgersByTimeframe) isFirst cumulative
          (items.map fun item => some item.vals)).1 =
      List.zipWith (fun (item : GroupItem ℚ) sum => ⟨item.mts, sum, item.vals⟩) items
        (runningSums cumulative (items.map GroupItem.vals)) := by
  induction items generalizing isFirst cumulative with
  | nil => rfl
  | cons item rest ih =>
      rw [List.map_cons, List.map_cons, runFrames, runningSums, List.zipWith_cons_cons,
        List.zipWith_cons_cons, add_comm cumulative]
      exact congrArg _ (ih false (item.vals + cumulative))

/-- The fees with the sums of those so far, from the oldest on. -/
theorem groupedData_eq {items : List (GroupItem ℚ)}
    (h : items.Pairwise fun item item' => item.mts > item'.mts) :
    groupedData items =
      (List.zipWith (fun (item : GroupItem ℚ) sum => (⟨item.mts, sum, item.vals⟩ : GroupItem Fees))
        items.reverse (runningSums 0 (items.reverse.map GroupItem.vals))).reverse := by
  have hrun := calcGroupedData_fromOldest_some [()] (seriesOf fun _ : Unit => items)
    (fun _ => getLedgersByTimeframe) (fun item => item.vals ()) 0
  have hmerged : CalcGroupedData.mergeData [()] (seriesOf fun _ : Unit => items) =
      items.map fun item => ⟨item.mts, fun _ => valsAt items item.mts⟩ :=
    mergeData_covered [()] () (fun _ => h) (List.mem_singleton_self ())
      (fun _ => List.mem_singleton_self ()) fun _ _ hitem => List.mem_map_of_mem hitem
  have hvals : items.reverse.map (fun item => valsAt items item.mts) =
      items.reverse.map fun item => some item.vals := by
    apply List.map_congr_left
    intro item hitem
    exact (valsAt_eq_some_iff h).mpr (List.mem_reverse.mp hitem)
  rw [groupedData]
  refine hrun.trans ?_
  rw [hmerged, ← List.map_reverse, List.map_map, List.zipWith_map_left]
  rw [← runFrames_fees true 0, ← hvals]
  rfl

/-- The items under their frames, where these have the values of the frames. -/
theorem map_groupedData (key : ℤ → ℤ) (value : ℤ → ℚ) {frames : List ℤ}
    (hframes : frames.Pairwise (· > ·)) {items : List (GroupItem ℚ)}
    (hitems : items.Pairwise fun item item' => item.mts > item'.mts)
    (h : items.map (fun item => (key item.mts, item.vals)) =
      frames.map fun frame => (frame, value frame)) :
    (groupedData items).map (fun item => (key item.mts, item.vals)) =
      frames.map fun frame => (frame, ⟨sumUpTo value frames frame, value frame⟩) := by
  have hvals : items.reverse.map GroupItem.vals = frames.reverse.map value := by
    have hsnd := congrArg (List.map Prod.snd) h
    rw [List.map_map, List.map_map] at hsnd
    rw [List.map_reverse, List.map_reverse]
    exact congrArg List.reverse hsnd
  have hsums := runningSums_map value (List.pairwise_reverse.mpr hframes) 0
  rw [groupedData_eq hitems, hvals, hsums, List.map_reverse, List.map_zipWith]
  have hpairs : List.zipWith (fun (item : GroupItem ℚ) sum =>
      (key item.mts, (⟨sum, item.vals⟩ : Fees))) items.reverse
        (frames.reverse.map fun frame => 0 + sumUpTo value frames.reverse frame) =
      List.zipWith (fun (p : ℤ × ℚ) sum => (p.1, (⟨sum, p.2⟩ : Fees)))
        (items.reverse.map fun item => (key item.mts, item.vals))
        (frames.reverse.map fun frame => 0 + sumUpTo value frames.reverse frame) := by
    rw [List.zipWith_map_left]
  rw [hpairs, List.map_reverse (l := items), h, ← List.map_reverse, List.zipWith_map,
    List.zipWith_self, ← List.map_reverse, List.reverse_reverse]
  apply List.map_congr_left
  intro frame _
  rw [zero_add, sumUpTo_reverse]

end Values

section Report

/-- The ledgers of a report. -/
def fees (stored : List Ledger) (user : User) (params : Params) : List Ledger :=
  stored.filter (isFee user params ((getLedgersFilter params).getD []))

def Ledger.frame (timeframe : Timeframe) (ledger : Ledger) : ℤ :=
  getStartMtsByTimeframe ledger.mts timeframe

/-- The sum of the fees that meet a condition. -/
def sumOfFees (data : List Ledger) (p : Ledger → Bool) : ℚ := total feeOf (data.filter p)

/-- What a report is to say of a frame. -/
def feesOfFrame (timeframe : Timeframe) (data : List Ledger) (frame : ℤ) : Fees where
  cumulative := sumOfFees data fun ledger => ledger.frame timeframe ≤ frame
  USD := sumOfFees data fun ledger => ledger.frame timeframe = frame

/-- An item for each frame with fees, with their sum and that of all fees so far. -/
structure Reports (timeframe : Timeframe) (data : List Ledger) (items : List (GroupItem Fees)) :
    Prop where
  decreasing : (items.map fun item => getStartMtsByTimeframe item.mts timeframe).Pairwise (· > ·)
  mem_frames {frame : ℤ} :
    frame ∈ items.map (fun item => getStartMtsByTimeframe item.mts timeframe) ↔
      ∃ ledger ∈ data, ledger.amountUsd.isSome ∧ ledger.frame timeframe = frame
  vals_eq : ∀ item ∈ items,
    item.vals = feesOfFrame timeframe data (getStartMtsByTimeframe item.mts timeframe)

variable {stored : List Ledger} {user : User} {params : Params}

theorem pairwise_getLedgers (categories : List ℕ) :
    (getLedgers stored user params categories).Pairwise fun ledger ledger' =>
      ledger'.mts ≤ ledger.mts := by
  have htotal : Std.Total fun ledger ledger' : Ledger => ledger'.mts ≤ ledger.mts :=
    ⟨fun ledger ledger' => le_total ledger'.mts ledger.mts⟩
  have htrans : IsTrans Ledger fun ledger ledger' => ledger'.mts ≤ ledger.mts :=
    ⟨fun _ _ _ h h' => le_trans h' h⟩
  exact List.pairwise_insertionSort _ _

/-- The items with their frames. -/
theorem map_report (timeframe : Timeframe) (start stop : ℤ) {data : List Ledger}
    (hsorted : data.Pairwise fun ledger ledger' => ledger'.mts ≤ ledger.mts) :
    (groupedData (groupByTimeframe (fun ledger => some ledger.mts) (stateless calcLedgers)
        timeframe () data start stop)).map
      (fun item => (getStartMtsByTimeframe item.mts timeframe, item.vals)) =
      (valueFrames feeOf timeframe Ledger.mts data).map fun frame =>
        (frame, feesOfFrame timeframe data frame) := by
  rw [calcLedgers_eq]
  have hdecreasing := pairwise_groupByTimeframe Ledger.mts timeframe start stop
    (stateless (sumOfFinite feeOf)) () (fun ledger _ => rfl) hsorted
  rw [map_groupedData (getStartMtsByTimeframe · timeframe) _
    (pairwise_valueFrames feeOf hsorted) hdecreasing
    (map_groupByTimeframe_sums feeOf timeframe start stop hsorted)]
  apply List.map_congr_left
  intro frame _
  rw [sumUpTo_valueFrames feeOf hsorted]
  rfl

theorem reports_groupedData (timeframe : Timeframe) (start stop : ℤ) {data : List Ledger}
    (hsorted : data.Pairwise fun ledger ledger' => ledger'.mts ≤ ledger.mts) :
    Reports timeframe data (groupedData (groupByTimeframe (fun ledger => some ledger.mts)
      (stateless calcLedgers) timeframe () data start stop)) := by
  have hreport := map_report timeframe start stop hsorted
  have hframes := congrArg (List.map Prod.fst) hreport
  rw [List.map_map, List.map_map] at hframes
  have hframes' : (groupedData (groupByTimeframe (fun ledger : Ledger => some ledger.mts)
      (stateless calcLedgers) timeframe () data start stop)).map
        (fun item => getStartMtsByTimeframe item.mts timeframe) =
          valueFrames feeOf timeframe Ledger.mts data :=
    hframes.trans (List.map_id _)
  constructor
  · rw [hframes']
    exact pairwise_valueFrames feeOf hsorted
  · intro frame
    rw [hframes', mem_valueFrames]
    simp only [feeOf, Option.isSome_map]
    rfl
  · intro item hitem
    have hmem : (getStartMtsByTimeframe item.mts timeframe, item.vals) ∈
        (valueFrames feeOf timeframe Ledger.mts data).map fun frame =>
          (frame, feesOfFrame timeframe data frame) := by
      rw [← hreport]
      exact List.mem_map_of_mem hitem
    obtain ⟨frame, _, heq⟩ := List.mem_map.mp hmem
    obtain ⟨rfl, hvals⟩ := Prod.mk.inj heq
    exact hvals.symm

/-- A report depends on which ledgers there are, not on their order. -/
theorem Reports.perm {timeframe : Timeframe} {data data' : List Ledger}
    {items : List (GroupItem Fees)} (h : Reports timeframe data items) (hperm : data.Perm data') :
    Reports timeframe data' items where
  decreasing := h.decreasing
  mem_frames := by
    intro frame
    rw [h.mem_frames]
    simp only [hperm.mem_iff]
  vals_eq item hitem := by
    rw [h.vals_eq item hitem]
    simp only [feesOfFrame, sumOfFees, total_perm feeOf (hperm.filter _)]

/-- The report of a period is about the fees of the period. -/
theorem reports_of_report {items : List (GroupItem Fees)}
    (h : getTotalFeesReport stored user params = some items) :
    Reports params.timeframe (fees stored user params) items := by
  rw [getTotalFeesReport, Option.map_eq_some_iff] at h
  obtain ⟨categories, hcategories, rfl⟩ := h
  have hperm : (getLedgers stored user params categories).Perm (fees stored user params) := by
    rw [fees, hcategories]
    exact List.perm_insertionSort _ _
  exact (reports_groupedData params.timeframe params.start params.stop
    (pairwise_getLedgers categories)).perm hperm

/-- There is a report if fees of some kind are asked for, and it is about the fees of the
period. -/
theorem getTotalFeesReport_spec (stored : List Ledger) (user : User) (params : Params) :
    ((getTotalFeesReport stored user params).isSome =
        (params.isTradingFees || params.isFundingFees)) ∧
      ∀ items ∈ getTotalFeesReport stored user params,
        Reports params.timeframe (fees stored user params) items := by
  constructor
  · rw [getTotalFeesReport, Option.isSome_map, getLedgersFilter]
    cases params.isTradingFees <;> cases params.isFundingFees <;> rfl
  · exact fun items h => reports_of_report h

end Report

section Parts

theorem Reports.map_eq {timeframe : Timeframe} {data : List Ledger}
    {items : List (GroupItem Fees)} (h : Reports timeframe data items) :
    items.map (fun item => (getStartMtsByTimeframe item.mts timeframe, item.vals)) =
      (items.map fun item => getStartMtsByTimeframe item.mts timeframe).map fun frame =>
        (frame, feesOfFrame timeframe data frame) := by
  rw [List.map_map]
  apply List.map_congr_left
  intro item hitem
  rw [h.vals_eq item hitem]
  rfl

variable {stored : List Ledger} {user : User} {params : Params} {mid : ℤ}

/-- The earlier part of a period, before the start of a frame. -/
def Params.before (params : Params) (mid : ℤ) : Params := { params with stop := mid - 1 }

/-- The part of a period from the start of a frame on. -/
def Params.since (params : Params) (mid : ℤ) : Params := { params with start := mid }

theorem fees_since (hstart : params.start ≤ mid) :
    fees stored user (params.since mid) =
      (fees stored user params).filter fun ledger => mid ≤ ledger.mts := by
  unfold fees
  rw [List.filter_filter]
  apply List.filter_congr
  intro ledger _
  simp only [isFee, Params.since]
  by_cases hmid : mid ≤ ledger.mts
  · simp [hmid, hstart.trans hmid]
    rfl
  · simp [hmid]

theorem fees_before (hstop : mid - 1 ≤ params.stop) :
    fees stored user (params.before mid) =
      (fees stored user params).filter fun ledger => !decide (mid ≤ ledger.mts) := by
  unfold fees
  rw [List.filter_filter]
  apply List.filter_congr
  intro ledger _
  simp only [isFee, Params.before]
  by_cases hmid : mid ≤ ledger.mts
  · have hlate : ¬ ledger.mts ≤ mid - 1 := by omega
    simp [hmid, hlate]
  · have hearly : ledger.mts ≤ mid - 1 := by omega
    simp [hmid, hearly, hearly.trans hstop]
    rfl

/-- The sum over two parts of the ledgers. -/
theorem total_parts (data : List Ledger) (p : Ledger → Bool) :
    total feeOf data = total feeOf (data.filter p) + total feeOf (data.filter (!p ·)) := by
  rw [← total_append]
  exact total_perm feeOf (List.filter_append_perm p data).symm

/-- Only ledgers with an amount count. -/
theorem sumOfFees_congr {data : List Ledger} {p q : Ledger → Bool}
    (h : ∀ ledger ∈ data, ledger.amountUsd.isSome → p ledger = q ledger) :
    sumOfFees data p = sumOfFees data q := by
  unfold sumOfFees total
  rw [List.filterMap_filter, List.filterMap_filter]
  congr 1
  apply List.filterMap_congr
  intro ledger hledger
  cases hamount : ledger.amountUsd with
  | none => simp [feeOf, hamount]
  | some amountUsd => rw [h ledger hledger (by rw [hamount]; rfl)]

/-- The sum that a report ends with. -/
def closing (items : List (GroupItem Fees)) : ℚ :=
  (items.head?.map fun item => item.vals.cumulative).getD 0

/-- A report ends with the sum of all fees. -/
theorem Reports.closing_eq {timeframe : Timeframe} {data : List Ledger}
    {items : List (GroupItem Fees)} (h : Reports timeframe data items) :
    closing items = total feeOf data := by
  have hall : total feeOf data = sumOfFees data fun _ => true := by
    rw [sumOfFees, List.filter_true]
  rw [hall]
  cases items with
  | nil =>
      have hnone : sumOfFees data (fun _ => true) = sumOfFees data fun _ => false := by
        apply sumOfFees_congr
        intro ledger hledger hamount
        cases h.mem_frames.mpr ⟨ledger, hledger, hamount, rfl⟩
      rw [hnone, sumOfFees, List.filter_false]
      rfl
  | cons item rest =>
      have hitem : closing (item :: rest) = item.vals.cumulative := rfl
      rw [hitem, h.vals_eq item List.mem_cons_self]
      apply sumOfFees_congr
      intro ledger hledger hamount
      apply decide_eq_true
      have hframe := h.mem_frames.mpr ⟨ledger, hledger, hamount, rfl⟩
      rcases List.mem_cons.mp hframe with heq | hmem
      · exact heq.le
      · exact ((List.pairwise_cons.mp h.decreasing).1 _ hmem).le

/-- The earlier rows are those of the earlier frames. -/
theorem Ledger.frame_lt_iff {timeframe : Timeframe}
    (hmid : getStartMtsByTimeframe mid timeframe = mid) (ledger : Ledger) :
    ledger.frame timeframe < mid ↔ ledger.mts < mid := by
  rw [getStartMtsByTimeframe_eq] at hmid
  rw [Ledger.frame, getStartMtsByTimeframe_eq]
  constructor
  · intro hlt
    by_contra hle
    have hmono := timeframe.frames.start_mono (not_lt.mp hle)
    rw [hmid] at hmono
    exact absurd hmono (not_le.mpr hlt)
  · exact fun hlt => (timeframe.frames.start_le ledger.mts).trans_lt hlt

/-- The sums of a later part, on top of those of an earlier one. -/
def Fees.after (fees : Fees) (previous : ℚ) : Fees :=
  { fees with cumulative := fees.cumulative + previous }

/-- The items of a report under their frames. -/
def byFrame (timeframe : Timeframe) (items : List (GroupItem Fees)) : List (ℤ × Fees) :=
  items.map fun item => (getStartMtsByTimeframe item.mts timeframe, item.vals)

section Joined

variable {timeframe : Timeframe} {data : List Ledger} {items before since : List (GroupItem Fees)}

/-- The frames of two parts of the ledgers. -/
theorem Reports.frames_eq (hmid : getStartMtsByTimeframe mid timeframe = mid)
    (h : Reports timeframe data items)
    (hbefore : Reports timeframe (data.filter fun ledger => !decide (mid ≤ ledger.mts)) before)
    (hsince : Reports timeframe (data.filter fun ledger => mid ≤ ledger.mts) since) :
    (items.map fun item => getStartMtsByTimeframe item.mts timeframe) =
      (since.map fun item => getStartMtsByTimeframe item.mts timeframe) ++
        before.map fun item => getStartMtsByTimeframe item.mts timeframe := by
  have hirrefl : Std.Irrefl fun frame frame' : ℤ => frame > frame' := ⟨fun _ => lt_irrefl _⟩
  refine List.Pairwise.eq_of_mem_iff h.decreasing ?_ ?_
  · apply List.pairwise_append.mpr
    refine ⟨hsince.decreasing, hbefore.decreasing, ?_⟩
    intro late hlate early hearly
    obtain ⟨ledger, hledger, _, rfl⟩ := hsince.mem_frames.mp hlate
    obtain ⟨ledger', hledger', _, rfl⟩ := hbefore.mem_frames.mp hearly
    obtain ⟨_, hle⟩ := List.mem_filter.mp hledger
    obtain ⟨_, hlt⟩ := List.mem_filter.mp hledger'
    have hlate := (ledger.frame_lt_iff hmid).not.mpr (not_lt.mpr (of_decide_eq_true hle))
    have hearly := (ledger'.frame_lt_iff hmid).mpr (by simpa using hlt)
    exact hearly.trans_le (not_lt.mp hlate)
  · intro frame
    rw [List.mem_append, h.mem_frames, hsince.mem_frames, hbefore.mem_frames]
    constructor
    · rintro ⟨ledger, hledger, hamount, hframe⟩
      by_cases hle : mid ≤ ledger.mts
      · exact Or.inl ⟨ledger, List.mem_filter.mpr ⟨hledger, decide_eq_true hle⟩, hamount, hframe⟩
      · have hlt : (!decide (mid ≤ ledger.mts)) = true := by simpa using hle
        exact Or.inr ⟨ledger, List.mem_filter.mpr ⟨hledger, hlt⟩, hamount, hframe⟩
    · rintro (⟨ledger, hledger, hamount, hframe⟩ | ⟨ledger, hledger, hamount, hframe⟩)
      · exact ⟨ledger, (List.mem_filter.mp hledger).1, hamount, hframe⟩
      · exact ⟨ledger, (List.mem_filter.mp hledger).1, hamount, hframe⟩

theorem feesOfFrame_since (hmid : getStartMtsByTimeframe mid timeframe = mid) {frame : ℤ}
    (hframe : mid ≤ frame) :
    feesOfFrame timeframe data frame =
      (feesOfFrame timeframe (data.filter fun ledger => mid ≤ ledger.mts) frame).after
        (total feeOf (data.filter fun ledger => !decide (mid ≤ ledger.mts))) := by
  -- the earlier fees are of earlier frames
  have hearly (ledger : Ledger) (hlt : ¬ mid ≤ ledger.mts) : ledger.frame timeframe < frame :=
    ((ledger.frame_lt_iff hmid).mpr (not_le.mp hlt)).trans_le hframe
  unfold feesOfFrame Fees.after sumOfFees
  congr 1
  · rw [total_parts (data.filter _) fun ledger => mid ≤ ledger.mts, List.filter_comm]
    congr 2
    rw [List.filter_filter]
    apply List.filter_congr
    intro ledger _
    by_cases hle : mid ≤ ledger.mts
    · simp [hle]
    · simp [hle, (hearly ledger hle).le]
  · congr 1
    rw [List.filter_filter]
    apply List.filter_congr
    intro ledger _
    by_cases hle : mid ≤ ledger.mts
    · simp [hle]
    · simp [hle, (hearly ledger hle).ne]

theorem feesOfFrame_before (hmid : getStartMtsByTimeframe mid timeframe = mid) {frame : ℤ}
    (hframe : frame < mid) :
    feesOfFrame timeframe data frame =
      feesOfFrame timeframe (data.filter fun ledger => !decide (mid ≤ ledger.mts)) frame := by
  have hlate (ledger : Ledger) (hle : mid ≤ ledger.mts) : frame < ledger.frame timeframe := by
    have hnlt := (ledger.frame_lt_iff hmid).not.mpr (not_lt.mpr hle)
    exact hframe.trans_le (not_lt.mp hnlt)
  unfold feesOfFrame sumOfFees
  congr 2
  · rw [List.filter_filter]
    apply List.filter_congr
    intro ledger _
    by_cases hle : mid ≤ ledger.mts
    · simp [hle, not_le.mpr (hlate ledger hle)]
    · simp [hle]
  · rw [List.filter_filter]
    apply List.filter_congr
    intro ledger _
    by_cases hle : mid ≤ ledger.mts
    · simp [hle, (hlate ledger hle).ne']
    · simp [hle]

/-- A report of all ledgers is made of those of two parts. -/
theorem Reports.byFrame_eq (hmid : getStartMtsByTimeframe mid timeframe = mid)
    (h : Reports timeframe data items)
    (hbefore : Reports timeframe (data.filter fun ledger => !decide (mid ≤ ledger.mts)) before)
    (hsince : Reports timeframe (data.filter fun ledger => mid ≤ ledger.mts) since) :
    byFrame timeframe items =
      (byFrame timeframe since).map (fun item => (item.1, item.2.after (closing before))) ++
        byFrame timeframe before := by
  rw [byFrame, byFrame, byFrame, h.map_eq, hsince.map_eq, hbefore.map_eq,
    h.frames_eq hmid hbefore hsince, List.map_append, hbefore.closing_eq]
  congr 1
  · rw [List.map_map (f := fun frame => (frame, feesOfFrame _ _ frame))]
    apply List.map_congr_left
    intro frame hmem
    obtain ⟨ledger, hledger, _, rfl⟩ := hsince.mem_frames.mp hmem
    have hle := of_decide_eq_true (List.mem_filter.mp hledger).2
    have hframe := not_lt.mp ((ledger.frame_lt_iff hmid).not.mpr (not_lt.mpr hle))
    rw [feesOfFrame_since hmid hframe]
    rfl
  · apply List.map_congr_left
    intro frame hmem
    obtain ⟨ledger, hledger, _, rfl⟩ := hbefore.mem_frames.mp hmem
    have hlt := (List.mem_filter.mp hledger).2
    rw [← feesOfFrame_before hmid ((ledger.frame_lt_iff hmid).mpr (by simpa using hlt))]

end Joined

/-- The report of a period goes on from that of an earlier part of it. -/
theorem getTotalFeesReport_parts {items before since : List (GroupItem Fees)}
    (hmid : getStartMtsByTimeframe mid params.timeframe = mid) (hstart : params.start ≤ mid)
    (hstop : mid - 1 ≤ params.stop) (h : getTotalFeesReport stored user params = some items)
    (hbefore : getTotalFeesReport stored user (params.before mid) = some before)
    (hsince : getTotalFeesReport stored user (params.since mid) = some since) :
    byFrame params.timeframe items =
      (byFrame params.timeframe since).map (fun item => (item.1, item.2.after (closing before))) ++
        byFrame params.timeframe before := by
  have hreport := reports_of_report h
  have hearlier := reports_of_report hbefore
  have hlater := reports_of_report hsince
  rw [fees_before hstop] at hearlier
  rw [fees_since hstart] at hlater
  exact hreport.byFrame_eq hmid hearlier hlater

end Parts

namespace TwoDaysWitness

def user : User := ⟨1, false⟩

def fee (mts : ℤ) (_category : ℕ) (amountUsd : Option ℚ) : Ledger :=
  ⟨mts, "USD", _category, 1, none, amountUsd⟩

/-- Fees of two days, one without an amount. -/
def stored : List Ledger :=
  [fee 1000 201 (some (-3)), fee 90000000 201 (some (-4)), fee 90000001 228 none,
    fee 86500000 201 (some (-5)), fee 2000 29 (some 1)]

def params : Params := ⟨0, 100000000, .day, [], true, true⟩

def items : List (GroupItem Fees) := [⟨100000000, ⟨11, 9⟩⟩, ⟨0, ⟨2, 2⟩⟩]

def before : List (GroupItem Fees) := [⟨86399999, ⟨2, 2⟩⟩]

def since : List (GroupItem Fees) := [⟨100000000, ⟨9, 9⟩⟩]

theorem getTotalFeesReport_parts_of_days :
    byFrame .day items =
      (byFrame .day since).map (fun item => (item.1, item.2.after (closing before))) ++
        byFrame .day before := by
  have hitems : getTotalFeesReport stored user params = some items := by decide +kernel
  have hbefore : getTotalFeesReport stored user (params.before 86400000) = some before := by
    decide +kernel
  have hsince : getTotalFeesReport stored user (params.since 86400000) = some since := by
    decide +kernel
  exact getTotalFeesReport_parts (by decide +kernel) (by decide) (by decide) hitems hbefore hsince

end TwoDaysWitness

end ReportsFramework.TotalFeesReport
