/-
Trades grouped by timeframe: from the frame of the oldest trade with a value on, an item for every
frame, with the sum of its trades.  The traded volume is such a series.
-/
import ReportsFramework.CandlePrices
import ReportsFramework.FrameSums

namespace ReportsFramework.Trades

open CalcGroupedData CandlePrices FrameSums

/-- What the reports read of a trade. -/
structure Trade where
  symbol : String
  mtsCreate : ℤ
  execAmount : Option ℚ
  execPrice : Option ℚ
  fee : Option ℚ
  feeCurrency : String
  user_id : ℕ

/-- A trade with its amounts. -/
structure CalcedTrade extends Trade where
  calcAmount : Option ℚ
  feeUsd : Option ℚ
  feeForCurrConv : Option ℚ
  baseCurrency : String
  amountUsd : Option ℚ

/-- What the services and the tables hold. -/
structure TradesEnv where
  converter : CandleCoverage.Env
  candles : List Candle
  trades : List Trade
  userId : ℕ

structure TradesParams where
  start : ℤ
  stop : ℤ
  timeframe : Timeframe
  symbol : List String

/-- `_getTrades`: the newest first. -/
def storedTrades (env : TradesEnv) (params : TradesParams) : List Trade :=
  let symbol := params.symbol.filter (· ≠ "")
  (env.trades.filter fun trade =>
    trade.user_id = env.userId && trade.mtsCreate ≤ params.stop &&
      params.start ≤ trade.mtsCreate &&
      (symbol.isEmpty || symbol.contains trade.symbol)).insertionSort
    fun trade trade' => trade'.mtsCreate ≤ trade.mtsCreate

/-- The amount of a trade in `_calcAmounts`. -/
def calcAmount (splitSymbolPairs : String → String × String) (trade : Trade) : CalcedTrade :=
  let (baseCurrency, symb) := splitSymbolPairs trade.symbol
  let isFeeInUsd := trade.feeCurrency = "USD"
  let isPriceInUsd := symb = "USD"
  let calcAmount := trade.execAmount.bind fun execAmount =>
    trade.execPrice.map fun execPrice => |execAmount * execPrice|
  let _feeUsd := if isFeeInUsd then trade.fee else none
  let feeUsd := (if ¬ isFeeInUsd ∧ isPriceInUsd then
      trade.fee.bind fun fee => trade.execPrice.map fun execPrice => fee * execPrice
    else none).or _feeUsd
  let _feeForCurrConv := if ¬ isFeeInUsd ∧ ¬ isPriceInUsd then trade.fee else none
  let feeForCurrConv := (_feeForCurrConv.bind fun fee =>
    if symb ≠ trade.feeCurrency then trade.execPrice.map fun execPrice => fee * execPrice
    else none).or _feeForCurrConv
  { trade with
    calcAmount := calcAmount
    feeUsd := feeUsd
    feeForCurrConv := feeForCurrConv
    baseCurrency := baseCurrency
    amountUsd := none }

/-- `convertManyByCandles` with the fields of `getTrades`. -/
def convertTrade (env : CandleCoverage.Env) (candles : List Candle) (item : CalcedTrade) :
    CalcedTrade :=
  let price := if item.symbol = "" then none
    else priceFromData env candles (env.splitSymbolPairs item.symbol).2 item.mtsCreate
  match price with
  | none => item
  | some price =>
      { item with
        amountUsd := (item.calcAmount.map (· * price)).or item.amountUsd
        feeUsd := (item.feeForCurrConv.map (· * price)).or item.feeUsd }

def getTrades (env : TradesEnv) (params : TradesParams) : List CalcedTrade :=
  let trades := (storedTrades env params).map (calcAmount env.converter.splitSymbolPairs)
  let stop := (trades.head?.map (·.mtsCreate)).getD 0
  let start := (trades.getLast?.map (·.mtsCreate)).getD 0
  trades.map (convertTrade env.converter (getCandles env.candles start stop))

/-- `_getStartingMts`. -/
def getStartingMts (start : ℤ) (groupedTrades : List (GroupItem ℚ)) : ℤ :=
  (groupedTrades.getLast?.map GroupItem.mts).getD start

inductive SeriesKey
  | tradesGroupedByTimeframe
  | mtsGroupedByTimeframe
deriving DecidableEq

abbrev SeriesKey.Vals : SeriesKey → Type
  | .tradesGroupedByTimeframe => ℚ
  | .mtsGroupedByTimeframe => ℤ

def SeriesKey.all : List SeriesKey := [.tradesGroupedByTimeframe, .mtsGroupedByTimeframe]

section Grouped

variable (fieldName : CalcedTrade → Option ℚ)

/-- The groups of `_calcTrades`. -/
def tradesGroupedByTimeframe (params : TradesParams) (trades : List CalcedTrade) :
    List (GroupItem ℚ) :=
  groupByTimeframe (fun trade : CalcedTrade => some trade.mtsCreate)
    (stateless (sumOfFinite fieldName)) params.timeframe () trades params.start params.stop

def seriesData (params : TradesParams) (groups : List (GroupItem ℚ)) :
    ∀ key : SeriesKey, List (GroupItem key.Vals)
  | .tradesGroupedByTimeframe => groups
  | .mtsGroupedByTimeframe =>
      getMtsGroupedByTimeframe (getStartingMts params.start groups) params.stop params.timeframe
        true

/-- The function of `_getTradesByTimeframe`. -/
def getTradesByTimeframe (item : MergedItem SeriesKey.Vals) : ℚ :=
  (item.vals .tradesGroupedByTimeframe).getD 0

def groupedData (params : TradesParams) (trades : List CalcedTrade) : List (GroupItem ℚ) :=
  let groups := tradesGroupedByTimeframe fieldName params trades
  (calcGroupedData SeriesKey.all (seriesOf (seriesData params groups))
    (fromOldest fun _ state item => (some (getTradesByTimeframe item.1), state)) true ()).1

def getGroupedDataIn (env : TradesEnv) (params : TradesParams) : List (GroupItem ℚ) :=
  groupedData fieldName params (getTrades env params)

end Grouped

def getTradedVolume (env : TradesEnv) (params : TradesParams) : List (GroupItem ℚ) :=
  getGroupedDataIn CalcedTrade.amountUsd env params

section Starting

variable {timeframe : Timeframe} {start stop : ℤ} {items : List (GroupItem V)}

/-- Items of frames of a range that were moved to its ends have timestamps of the frames from the
last one on. -/
structure FromLast (timeframe : Timeframe) (stop first : ℤ) (items : List (GroupItem V)) :
    Prop where
  first_le : first ≤ stop
  mem_frameMts : ∀ item ∈ items, item.mts = stop ∨
    timeframe.frames.start first < timeframe.frames.start stop ∧ item.mts = first ∨
      timeframe.frames.start item.mts = item.mts ∧ timeframe.frames.start first < item.mts ∧
        item.mts < timeframe.frames.start stop

theorem fromLast_setMts (h : start ≤ stop)
    (hitems : items.Pairwise fun item item' => item.mts > item'.mts)
    (hframes : ∀ item ∈ items, timeframe.frames.start item.mts = item.mts ∧
      item.mts ≤ timeframe.frames.start stop) :
    FromLast timeframe stop
      (((setMtsToStartingAndEndingFrames items start stop (some timeframe)).getLast?.map
        GroupItem.mts).getD start)
      (setMtsToStartingAndEndingFrames items start stop (some timeframe)) := by
  have hstop := timeframe.frames.start_le stop
  cases items with
  | nil => exact ⟨h, fun item hitem => absurd hitem List.not_mem_nil⟩
  | cons first rest =>
      obtain ⟨hfirst, hrest⟩ := List.forall_mem_cons.mp hframes
      have hmoved := mts_moveTo stop hfirst.1
      rcases List.eq_nil_or_concat' rest with rfl | ⟨mid, last, rfl⟩
      · simp only [setMtsToStartingAndEndingFrames, modifyLast, List.getLast?_singleton,
          Option.map_some, Option.getD_some]
        rw [hmoved]
        by_cases hend : timeframe.frames.start stop = first.mts
        · rw [if_pos hend]
          refine ⟨le_rfl, ?_⟩
          intro item hitem
          rw [List.mem_singleton.mp hitem, hmoved, if_pos hend]
          exact Or.inl rfl
        · rw [if_neg hend]
          refine ⟨hfirst.2.trans hstop, ?_⟩
          intro item hitem
          rw [List.mem_singleton.mp hitem, hmoved, if_neg hend, hfirst.1]
          exact Or.inr (Or.inl ⟨lt_of_le_of_ne hfirst.2 (Ne.symm hend), rfl⟩)
      · have hlast := hrest last (by simp)
        obtain ⟨hbelow, hpairwise⟩ := List.pairwise_cons.mp hitems
        have hbefore := (List.pairwise_append.mp hpairwise).2.2
        have hltLast := hbelow last (by simp)
        have hstart := moveTo_native start hlast.1
        rw [setMtsToStartingAndEndingFrames, modifyLast_concat, ← List.cons_append,
          List.getLast?_concat, Option.map_some, Option.getD_some]
        constructor
        · rw [mts_moveTo start hlast.1]
          split_ifs
          · exact h
          · exact hlast.2.trans hstop
        · intro item hitem
          rw [hstart]
          rcases List.mem_append.mp hitem with hitem | hitem
          · rcases List.mem_cons.mp hitem with rfl | hmid
            · rw [hmoved]
              split_ifs with hend
              · exact Or.inl rfl
              · exact Or.inr (Or.inr ⟨hfirst.1, hltLast, lt_of_le_of_ne hfirst.2 (Ne.symm hend)⟩)
            · have hframe := hrest item (by simp [hmid])
              have hlt := hbelow item (by simp [hmid])
              have hgt := hbefore item hmid last (by simp)
              exact Or.inr (Or.inr ⟨hframe.1, hgt, hlt.trans_le hfirst.2⟩)
          · rw [List.mem_singleton.mp hitem]
            exact Or.inr (Or.inl ⟨hltLast.trans_le hfirst.2, rfl⟩)

end Starting

section Report

variable {fieldName : CalcedTrade → Option ℚ} {params : TradesParams} {trades : List CalcedTrade}

/-- What the report relies on: trades of the range from the newest on, and valid ends. -/
structure TradesParams.Proper (params : TradesParams) (trades : List CalcedTrade) : Prop where
  le : params.start ≤ params.stop
  first_isValid : Moment.isValid (params.timeframe.frames.start params.start) = true
  stop_isValid : Moment.isValid params.stop = true
  sorted : trades.Pairwise fun trade trade' => trade'.mtsCreate ≤ trade.mtsCreate
  range : ∀ trade ∈ trades, params.start ≤ trade.mtsCreate ∧ trade.mtsCreate ≤ params.stop

/-- The first timestamp of the series. -/
def firstMts (fieldName : CalcedTrade → Option ℚ) (params : TradesParams)
    (trades : List CalcedTrade) : ℤ :=
  getStartingMts params.start (tradesGroupedByTimeframe fieldName params trades)

theorem isValid_of_between {t u v : ℤ} (ht : Moment.isValid t = true) (hv : Moment.isValid v = true)
    (h : t ≤ u) (h' : u ≤ v) : Moment.isValid u = true := by
  unfold Moment.isValid at *
  rw [decide_eq_true_iff] at *
  omega

theorem exists_row_of_group (h : params.Proper trades) {item : GroupItem ℚ}
    (hitem : item ∈ tradesGroupedByTimeframe fieldName params trades) :
    ∃ trade ∈ trades, (fieldName trade).isSome ∧
      params.timeframe.frames.start trade.mtsCreate = params.timeframe.frames.start item.mts := by
  have hgroups := map_groupByTimeframe_sums fieldName params.timeframe params.start params.stop
    h.sorted
  have hpair := List.mem_map_of_mem (f := fun item : GroupItem ℚ =>
    (getStartMtsByTimeframe item.mts params.timeframe, item.vals)) hitem
  rw [tradesGroupedByTimeframe] at hitem
  rw [tradesGroupedByTimeframe, hgroups] at hpair
  obtain ⟨frame, hframe, heq⟩ := List.mem_map.mp hpair
  obtain ⟨trade, htrade, hsome, hstart⟩ := (mem_valueFrames fieldName).mp hframe
  rw [getStartMtsByTimeframe_eq] at hstart
  refine ⟨trade, htrade, hsome, ?_⟩
  rw [hstart, ← getStartMtsByTimeframe_eq]
  exact (Prod.mk.inj heq).1

theorem exists_group_of_row (h : params.Proper trades) {trade : CalcedTrade}
    (htrade : trade ∈ trades) (hsome : (fieldName trade).isSome) :
    ∃ item ∈ tradesGroupedByTimeframe fieldName params trades,
      params.timeframe.frames.start item.mts =
        params.timeframe.frames.start trade.mtsCreate := by
  have hgroups := map_groupByTimeframe_sums fieldName params.timeframe params.start params.stop
    h.sorted
  have hframe : getStartMtsByTimeframe trade.mtsCreate params.timeframe ∈
      valueFrames fieldName params.timeframe (fun trade : CalcedTrade => trade.mtsCreate) trades :=
    (mem_valueFrames fieldName).mpr ⟨trade, htrade, hsome, rfl⟩
  have hpair := List.mem_map_of_mem (f := fun frame => (frame, total fieldName (rowsIn
    params.timeframe (fun trade : CalcedTrade => trade.mtsCreate) trades frame))) hframe
  rw [← hgroups] at hpair
  obtain ⟨item, hitem, heq⟩ := List.mem_map.mp hpair
  refine ⟨item, hitem, ?_⟩
  rw [← getStartMtsByTimeframe_eq, ← getStartMtsByTimeframe_eq]
  exact (Prod.mk.inj heq).1

theorem pairwise_groups (fieldName : CalcedTrade → Option ℚ) (h : params.Proper trades) :
    (tradesGroupedByTimeframe fieldName params trades).Pairwise fun item item' =>
      item.mts > item'.mts :=
  pairwise_groupByTimeframe (fun trade : CalcedTrade => trade.mtsCreate) _ _ _ _ _ (fun _ _ => rfl)
    h.sorted

/-- All trades with a value are of the frames of the series. -/
theorem firstMts_le (h : params.Proper trades) {trade : CalcedTrade} (htrade : trade ∈ trades)
    (hsome : (fieldName trade).isSome) :
    params.timeframe.frames.start (firstMts fieldName params trades) ≤
      params.timeframe.frames.start trade.mtsCreate := by
  obtain ⟨item, hitem, heq⟩ := exists_group_of_row h htrade hsome
  rw [← heq]
  apply params.timeframe.frames.start_mono
  have hpairwise := pairwise_groups fieldName h
  rw [firstMts, getStartingMts]
  revert hitem hpairwise
  cases tradesGroupedByTimeframe fieldName params trades using List.reverseRecOn with
  | nil => exact fun hitem => absurd hitem List.not_mem_nil
  | append_singleton init last _ =>
      intro hitem hpairwise
      rw [List.getLast?_concat, Option.map_some, Option.getD_some]
      rcases List.mem_append.mp hitem with hitem | hitem
      · exact ((List.pairwise_append.mp hpairwise).2.2 item hitem last (by simp)).le
      · rw [List.mem_singleton.mp hitem]

/-- The groups have timestamps of the series. -/
theorem fromLast_groups (fieldName : CalcedTrade → Option ℚ) (h : params.Proper trades) :
    FromLast params.timeframe params.stop (firstMts fieldName params trades)
      (tradesGroupedByTimeframe fieldName params trades) := by
  have hgroups : tradesGroupedByTimeframe fieldName params trades =
      setMtsToStartingAndEndingFrames (reported (answers (stateless (sumOfFinite fieldName)) ()
        (frameBlocks params.timeframe (fun trade : CalcedTrade => trade.mtsCreate)
          trades))).reverse params.start params.stop (some params.timeframe) :=
    groupByTimeframe_eq _ () (fun _ _ => rfl) h.sorted
  rw [firstMts, getStartingMts, hgroups]
  have hpairwise := pairwise_frames params.timeframe h.sorted
  rw [← map_fst_answers (stateless (sumOfFinite fieldName)) ()] at hpairwise
  apply fromLast_setMts h.le
  · have hmts := List.pairwise_reverse.mpr
      (hpairwise.sublist (map_mts_reported_sublist (answers (stateless (sumOfFinite fieldName)) ()
        (frameBlocks params.timeframe (fun trade : CalcedTrade => trade.mtsCreate) trades))))
    rw [← List.map_reverse] at hmts
    exact List.pairwise_map.mp hmts
  · intro item hitem
    obtain ⟨trade, htrade, heq⟩ :=
      exists_row_of_answer (mem_reported.mp (List.mem_reverse.mp hitem))
    dsimp only at heq
    rw [← heq]
    exact ⟨params.timeframe.frames.start_start _,
      params.timeframe.frames.start_mono (h.range trade htrade).2⟩

/-- The series is about a range. -/
theorem isRange_firstMts (fieldName : CalcedTrade → Option ℚ) (h : params.Proper trades) :
    IsRange params.timeframe (firstMts fieldName params trades) params.stop where
  le := (fromLast_groups fieldName h).first_le
  first_isValid := by
    have hle := (fromLast_groups fieldName h).first_le
    have hstart := params.timeframe.frames.start_le (firstMts fieldName params trades)
    apply isValid_of_between h.first_isValid h.stop_isValid _ (hstart.trans hle)
    cases hlast : (tradesGroupedByTimeframe fieldName params trades).getLast? with
    | none =>
        rw [firstMts, getStartingMts, hlast]
        rfl
    | some last =>
        obtain ⟨trade, htrade, _, heq⟩ :=
          exists_row_of_group h (List.mem_of_getLast? hlast)
        rw [firstMts, getStartingMts, hlast, Option.map_some, Option.getD_some, ← heq]
        exact params.timeframe.frames.start_mono (h.range trade htrade).1
  stop_isValid := h.stop_isValid

theorem mem_frameMts_of_group (h : params.Proper trades) :
    ∀ item ∈ tradesGroupedByTimeframe fieldName params trades,
      item.mts ∈ frameMts params.timeframe (firstMts fieldName params trades) params.stop :=
  fun item hitem => ((isRange_firstMts fieldName h).mem_frameMts item.mts).mpr
    ((fromLast_groups fieldName h).mem_frameMts item hitem)

/-- A function of each item alone. -/
theorem runFrames_stateless {α β : Type*} (g : α → β) (isFirst : Bool) (items : List α) :
    (runFrames (fun _ (state : Unit) item => (g item, state)) isFirst () items).1 =
      items.map g := by
  induction items generalizing isFirst with
  | nil => rfl
  | cons item rest ih => exact congrArg (g item :: ·) (ih false)

/-- The grouped data have an item for every frame from the first one with a value on. -/
theorem groupedData_eq (h : params.Proper trades) :
    groupedData fieldName params trades =
      (frameMts params.timeframe (firstMts fieldName params trades) params.stop).map fun m =>
        ⟨m, total fieldName (rowsIn params.timeframe (fun trade => trade.mtsCreate) trades
          (params.timeframe.frames.start m))⟩ := by
  have hrange := isRange_firstMts fieldName h
  have hdata (key : SeriesKey) : (seriesData params (tradesGroupedByTimeframe fieldName params
      trades) key).Pairwise fun item item' => item.mts > item'.mts := by
    cases key with
    | tradesGroupedByTimeframe => exact pairwise_groups fieldName h
    | mtsGroupedByTimeframe => exact List.pairwise_map.mp hrange.pairwise_frameMts
  have hmts (key : SeriesKey) : ∀ item ∈ seriesData params (tradesGroupedByTimeframe fieldName
      params trades) key, item.mts ∈ frameMts params.timeframe
        (firstMts fieldName params trades) params.stop := by
    cases key with
    | tradesGroupedByTimeframe => exact mem_frameMts_of_group h
    | mtsGroupedByTimeframe => exact fun item hitem => List.mem_map_of_mem hitem
  have hmerged := mergeData_covered SeriesKey.all .mtsGroupedByTimeframe hdata (by decide)
    (fun key => by cases key <;> decide) hmts
  have hrun := calcGroupedData_fromOldest_some SeriesKey.all
    (seriesOf (seriesData params (tradesGroupedByTimeframe fieldName params trades)))
    (fun _ (state : Unit) (item : MergedItem SeriesKey.Vals) => (getTradesByTimeframe item, state))
    id ()
  rw [groupedData]
  refine hrun.trans ?_
  rw [runFrames_stateless, hmerged, List.map_id, List.zipWith_map_right, List.zipWith_self,
    List.map_reverse, List.reverse_reverse, List.map_map, frameMts, List.map_map]
  apply List.map_congr_left
  intro item hitem
  have hvals := valsAt_groupByTimeframe hrange h.sorted (sumOfFinite fieldName) rfl
    (mem_frameMts_of_group h) (List.mem_map_of_mem hitem)
  have hgroup : getTradesByTimeframe ⟨item.mts, fun key =>
      valsAt (seriesData params (tradesGroupedByTimeframe fieldName params trades) key) item.mts⟩ =
        (valsAt (tradesGroupedByTimeframe fieldName params trades) item.mts).getD 0 := rfl
  rw [Function.comp_apply, Function.comp_apply, hgroup, tradesGroupedByTimeframe, hvals,
    sumOfFinite_eq]
  split_ifs with hnil
  · rw [total, hnil]
    rfl
  · rfl

/-- No trade is left out of the series. -/
theorem sum_groupedData (h : params.Proper trades) :
    ((groupedData fieldName params trades).map GroupItem.vals).sum = total fieldName trades := by
  have hrange := isRange_firstMts fieldName h
  have hstop : params.stop ∈ frameMts params.timeframe (firstMts fieldName params trades)
      params.stop := (hrange.mem_frameMts params.stop).mpr (Or.inl rfl)
  have hsum := sumUpTo_frameMts hrange fieldName h.sorted
    (fun trade htrade hsome => ⟨firstMts_le h htrade hsome, (h.range trade htrade).2⟩) hstop
  have hall : trades.filter (fun trade => decide (getStartMtsByTimeframe trade.mtsCreate
      params.timeframe ≤ params.timeframe.frames.start params.stop)) = trades := by
    apply List.filter_eq_self.mpr
    intro trade htrade
    rw [decide_eq_true_iff, getStartMtsByTimeframe_eq]
    exact params.timeframe.frames.start_mono (h.range trade htrade).2
  have hmts : (frameMts params.timeframe (firstMts fieldName params trades) params.stop).filter
      (· ≤ params.stop) = frameMts params.timeframe (firstMts fieldName params trades)
        params.stop := by
    apply List.filter_eq_self.mpr
    intro m hm
    exact decide_eq_true (hrange.le_stop hm)
  rw [hall, sumUpTo, hmts] at hsum
  rw [groupedData_eq h, List.map_map, ← hsum]
  rfl

end Report

section Volume

variable {env : TradesEnv} {params : TradesParams}

/-- The candles that the trades are converted by. -/
def tradesCandles (env : TradesEnv) (params : TradesParams) : List Candle :=
  getCandles env.candles (((storedTrades env params).getLast?.map Trade.mtsCreate).getD 0)
    (((storedTrades env params).head?.map Trade.mtsCreate).getD 0)

/-- The volume of a trade in USD. -/
def volumeOf (env : CandleCoverage.Env) (candles : List Candle) (trade : Trade) : Option ℚ :=
  (if trade.symbol = "" then none
    else priceFromData env candles (env.splitSymbolPairs trade.symbol).2 trade.mtsCreate).bind
    fun price => trade.execAmount.bind fun execAmount =>
      trade.execPrice.map fun execPrice => |execAmount * execPrice| * price

/-- A trade as `getTrades` returns it. -/
def converted (env : CandleCoverage.Env) (candles : List Candle) (trade : Trade) : CalcedTrade :=
  convertTrade env candles (calcAmount env.splitSymbolPairs trade)

theorem amountUsd_converted (env : CandleCoverage.Env) (candles : List Candle) (trade : Trade) :
    (converted env candles trade).amountUsd = volumeOf env candles trade := by
  have hsymbol : (calcAmount env.splitSymbolPairs trade).symbol = trade.symbol := rfl
  have hmts : (calcAmount env.splitSymbolPairs trade).mtsCreate = trade.mtsCreate := rfl
  rw [converted, convertTrade, volumeOf, hsymbol, hmts]
  cases (if trade.symbol = "" then none
    else priceFromData env candles (env.splitSymbolPairs trade.symbol).2 trade.mtsCreate) with
  | none => rfl
  | some price =>
      cases hamount : trade.execAmount with
      | none => simp [calcAmount, hamount]
      | some execAmount =>
          cases hprice : trade.execPrice with
          | none => simp [calcAmount, hamount, hprice]
          | some execPrice => simp [calcAmount, hamount, hprice]

theorem mtsCreate_converted (env : CandleCoverage.Env) (candles : List Candle) (trade : Trade) :
    (converted env candles trade).mtsCreate = trade.mtsCreate := by
  rw [converted, convertTrade]
  cases (if (calcAmount env.splitSymbolPairs trade).symbol = "" then none
    else priceFromData env candles
      (env.splitSymbolPairs (calcAmount env.splitSymbolPairs trade).symbol).2
      (calcAmount env.splitSymbolPairs trade).mtsCreate) <;> rfl

theorem getTrades_eq (env : TradesEnv) (params : TradesParams) :
    getTrades env params =
      (storedTrades env params).map (converted env.converter (tradesCandles env params)) := by
  rw [getTrades, List.head?_map, List.getLast?_map, Option.map_map, Option.map_map, List.map_map]
  rfl

theorem proper_getTrades (env : TradesEnv) (hle : params.start ≤ params.stop)
    (hfirst : Moment.isValid (params.timeframe.frames.start params.start) = true)
    (hstop : Moment.isValid params.stop = true) : params.Proper (getTrades env params) where
  le := hle
  first_isValid := hfirst
  stop_isValid := hstop
  sorted := by
    have htotal : Std.Total fun trade trade' : Trade => trade'.mtsCreate ≤ trade.mtsCreate :=
      ⟨fun trade trade' => le_total trade'.mtsCreate trade.mtsCreate⟩
    have htrans : IsTrans Trade fun trade trade' => trade'.mtsCreate ≤ trade.mtsCreate :=
      ⟨fun _ _ _ h h' => le_trans h' h⟩
    rw [getTrades_eq]
    apply List.pairwise_map.mpr
    simp only [mtsCreate_converted]
    exact List.pairwise_insertionSort _ _
  range := by
    intro trade htrade
    rw [getTrades_eq] at htrade
    obtain ⟨stored, hstored, rfl⟩ := List.mem_map.mp htrade
    rw [mtsCreate_converted]
    have hmem := ((List.perm_insertionSort _ _).mem_iff).mp hstored
    have hfilter := (List.mem_filter.mp hmem).2
    simp only [Bool.and_eq_true, decide_eq_true_iff] at hfilter
    exact ⟨hfilter.1.2, hfilter.1.1.2⟩

/-- Sums of converted trades. -/
theorem total_converted (candles : List Candle) (env : CandleCoverage.Env) (trades : List Trade) :
    total CalcedTrade.amountUsd (trades.map (converted env candles)) =
      total (volumeOf env candles) trades := by
  have hvolume : CalcedTrade.amountUsd ∘ converted env candles = volumeOf env candles := by
    funext trade
    exact amountUsd_converted env candles trade
  rw [total, List.filterMap_map, hvolume, total]

theorem rowsIn_converted (timeframe : Timeframe) (candles : List Candle)
    (env : CandleCoverage.Env) (trades : List Trade) (frame : ℤ) :
    rowsIn timeframe (fun trade : CalcedTrade => trade.mtsCreate)
        (trades.map (converted env candles)) frame =
      (rowsIn timeframe Trade.mtsCreate trades frame).map (converted env candles) := by
  rw [rowsIn, List.filter_map, rowsIn]
  congr 1
  apply List.filter_congr
  intro trade _
  rw [Function.comp_apply, mtsCreate_converted]

/-- A series begins in the frame of a trade with a value, or with the range if there is none. -/
theorem firstMts_cases (fieldName : CalcedTrade → Option ℚ) {trades : List CalcedTrade}
    (h : params.Proper trades) :
    (∃ trade ∈ trades, (fieldName trade).isSome ∧ params.timeframe.frames.start trade.mtsCreate =
        params.timeframe.frames.start (firstMts fieldName params trades)) ∨
      firstMts fieldName params trades = params.start ∧
        ∀ trade ∈ trades, fieldName trade = none := by
  cases hlast : (tradesGroupedByTimeframe fieldName params trades).getLast? with
  | none =>
      right
      constructor
      · rw [firstMts, getStartingMts, hlast]
        rfl
      · intro trade htrade
        by_contra hne
        obtain ⟨item, hitem, _⟩ :=
          exists_group_of_row h htrade (Option.isSome_iff_ne_none.mpr hne)
        rw [List.getLast?_eq_none_iff.mp hlast] at hitem
        exact absurd hitem List.not_mem_nil
  | some last =>
      left
      rw [firstMts, getStartingMts, hlast]
      exact exists_row_of_group h (List.mem_of_getLast? hlast)

/-- A timestamp in the frame of the oldest trade with a volume, or the start of the range if no
trade has one. -/
structure IsFirst (env : TradesEnv) (params : TradesParams) (first : ℤ) : Prop where
  le : ∀ trade ∈ storedTrades env params,
    (volumeOf env.converter (tradesCandles env params) trade).isSome →
      params.timeframe.frames.start first ≤ params.timeframe.frames.start trade.mtsCreate
  cases : (∃ trade ∈ storedTrades env params,
      (volumeOf env.converter (tradesCandles env params) trade).isSome ∧
        params.timeframe.frames.start trade.mtsCreate = params.timeframe.frames.start first) ∨
    first = params.start ∧ ∀ trade ∈ storedTrades env params,
      volumeOf env.converter (tradesCandles env params) trade = none

theorem isFirst_firstMts (h : params.Proper (getTrades env params)) :
    IsFirst env params (firstMts CalcedTrade.amountUsd params (getTrades env params)) := by
  constructor
  · intro trade htrade hsome
    have hmem : converted env.converter (tradesCandles env params) trade ∈
        getTrades env params := by
      rw [getTrades_eq]
      exact List.mem_map_of_mem htrade
    rw [← amountUsd_converted] at hsome
    have hle := firstMts_le h hmem hsome
    rwa [mtsCreate_converted] at hle
  · have hcases := firstMts_cases CalcedTrade.amountUsd h
    simp only [getTrades_eq, List.mem_map, exists_exists_and_eq_and, forall_exists_index, and_imp,
      forall_apply_eq_imp_iff₂, amountUsd_converted, mtsCreate_converted] at hcases ⊢
    exact hcases

/-- The traded volume has an item for every frame from that of the oldest trade with a volume on,
with the volume of the trades of the frame; together they are the volume of all trades. -/
theorem getTradedVolume_spec (hle : params.start ≤ params.stop)
    (hfirst : Moment.isValid (params.timeframe.frames.start params.start) = true)
    (hstop : Moment.isValid params.stop = true) :
    (∃ first, IsFirst env params first ∧
      getTradedVolume env params =
        (frameMts params.timeframe first params.stop).map fun m =>
          ⟨m, total (volumeOf env.converter (tradesCandles env params))
            (rowsIn params.timeframe Trade.mtsCreate (storedTrades env params)
              (params.timeframe.frames.start m))⟩) ∧
      ((getTradedVolume env params).map GroupItem.vals).sum =
        total (volumeOf env.converter (tradesCandles env params)) (storedTrades env params) := by
  have hproper := proper_getTrades env hle hfirst hstop
  constructor
  · refine ⟨_, isFirst_firstMts hproper, ?_⟩
    rw [getTradedVolume, getGroupedDataIn, groupedData_eq hproper]
    apply List.map_congr_left
    intro m _
    rw [getTrades_eq, rowsIn_converted, total_converted]
  · rw [getTradedVolume, getGroupedDataIn, sum_groupedData hproper, getTrades_eq, total_converted]

end Volume

namespace ThreeDaysWitness

/-- From noon on. -/
def params : TradesParams := ⟨43200000, 180000000, .day, []⟩

def trade (mtsCreate : ℤ) (execAmount execPrice : ℚ) : Trade :=
  ⟨"tBTCUSD", mtsCreate, some execAmount, some execPrice, none, "USD", 1⟩

/-- Trades of the first and the third day. -/
def env : TradesEnv where
  converter := ⟨["USD"], fun _ => ("BTC", "USD"), fun _ => none⟩
  candles := []
  trades := [trade 50000000 2 10, trade 172800000 (-1) 5, trade 175000000 3 1, trade 1000 9 9]
  userId := 1

example : getTradedVolume env params = [⟨180000000, 8⟩, ⟨86400000, 0⟩, ⟨43200000, 20⟩] := by
  decide +kernel

theorem getTradedVolume_spec_of_days :
    (∃ first, IsFirst env params first ∧
      getTradedVolume env params =
        (frameMts params.timeframe first params.stop).map fun m =>
          ⟨m, total (volumeOf env.converter (tradesCandles env params))
            (rowsIn params.timeframe Trade.mtsCreate (storedTrades env params)
              (params.timeframe.frames.start m))⟩) ∧
      ((getTradedVolume env params).map GroupItem.vals).sum =
        total (volumeOf env.converter (tradesCandles env params)) (storedTrades env params) :=
  getTradedVolume_spec (by decide) (by decide) (by decide)

end ThreeDaysWitness

end ReportsFramework.Trades
