/-
The balance history has, for every frame of its range, the balances of the latest rows
at the end of the frame, as long as the weekly regrouping drops no row.
-/
import Mathlib.Data.List.Infix
import Mathlib.Data.List.Sort
import ReportsFramework.BalanceCarry

namespace ReportsFramework

section ReGroup

/-- Rows on end at turns of years do not share a currency. -/
def NoCurrencyTwice (rows : List WalletRow) : Prop :=
  ∀ run, run <:+: rows → (∀ row ∈ run, isAtTurnOfYear row.mtsUpdate = true) →
    (run.map WalletRow.currency).Nodup

theorem reGroupLoop_eq {unicGroup rows : List WalletRow} (accum : List WalletRow)
    (hrows : NoCurrencyTwice (unicGroup ++ rows))
    (hunic : ∀ row ∈ unicGroup, isAtTurnOfYear row.mtsUpdate = true)
    (hne : rows = [] → unicGroup = []) :
    reGroupLoop unicGroup accum rows = accum ++ unicGroup ++ rows := by
  induction rows generalizing unicGroup accum with
  | nil => simp [reGroupLoop, hne rfl]
  | cons item rest ih =>
    have hrest : NoCurrencyTwice ([] ++ rest) := by
      intro run hrun
      refine hrows run (hrun.trans ?_)
      exact ((List.suffix_cons item rest).trans (List.suffix_append unicGroup _)).isInfix
    rw [reGroupLoop]
    by_cases hturn : isAtTurnOfYear item.mtsUpdate = true
    · have hunic' : ∀ row ∈ unicGroup ++ [item], isAtTurnOfYear row.mtsUpdate = true := by
        intro row hrow
        rcases List.mem_append.mp hrow with hrow | hrow
        · exact hunic row hrow
        · rw [List.mem_singleton.mp hrow]
          exact hturn
      have hinfix : unicGroup ++ [item] <:+: unicGroup ++ item :: rest := by
        rw [show unicGroup ++ item :: rest = unicGroup ++ [item] ++ rest by simp]
        exact (List.prefix_append _ rest).isInfix
      have hnodup := hrows _ hinfix hunic'
      have hnot : ¬ isInUnicGroup unicGroup item = true := by
        rw [isInUnicGroup, List.any_eq_true]
        rintro ⟨w, hw, hcurrency⟩
        rw [List.map_append, List.map_singleton] at hnodup
        exact (List.nodup_append.mp hnodup).2.2 _ (List.mem_map_of_mem hw) _
          (List.mem_singleton_self _) (by simpa using hcurrency)
      rw [if_pos hturn, if_neg hnot]
      cases rest with
      | nil => simp [reGroupLoop]
      | cons next rest =>
        rw [List.isEmpty_cons, if_neg (by decide), ih accum (by simpa using hrows) hunic' (by simp)]
        simp
    · rw [if_neg hturn, ih _ hrest (by simp) (fun _ => rfl)]
      simp

theorem reGroupWeeklyDataGroups_eq {rows : List WalletRow} (h : NoCurrencyTwice rows) :
    reGroupWeeklyDataGroups rows = rows :=
  reGroupLoop_eq [] h (by simp) (fun _ => rfl)

end ReGroup

section Fold

variable (getPriceFromData : String → ℤ → Option ℚ) {forexSymbs : List String}
  {timeframe : Timeframe}

/-- The fold over the merged items, where `balances` says what each frame comes to. -/
theorem reduceRight_eq (hforex : "USD" ∈ forexSymbs) (now : ℤ) (firstRes : Balances)
    (balances : ℤ → Balances) {items : List (MergedItem SeriesVals)}
    (hframe : ∀ item ∈ items, item.vals .mtsGroupedByTimeframe =
      some (timeframe.frames.start item.mts))
    (hvals : ∀ later item earlier, items = later ++ item :: earlier →
      item.vals .walletsGroupedByTimeframe = some (balances (timeframe.frames.start item.mts)) ∧
          balances (timeframe.frames.start item.mts) ≠ [] ∨
        item.vals .walletsGroupedByTimeframe = none ∧
          balances (timeframe.frames.start item.mts) = earlier.head?.elim firstRes fun item' =>
            balances (timeframe.frames.start item'.mts)) :
    reduceRight (walletsByTimeframe getPriceFromData forexSymbs timeframe now) firstRes items =
      items.map fun item => (item.mts,
        weigh (usdPrice getPriceFromData timeframe (timeframe.frames.start item.mts))
          (balances (timeframe.frames.start item.mts)) +
        ((item.vals .plGroupedByTimeframe).bind id).getD 0) := by
  have hfold : ∀ earlier later, items = later ++ earlier →
      earlier.foldr (fun item (res : List (ℤ × ℚ) × Balances) =>
        let (vals, state) := walletsByTimeframe getPriceFromData forexSymbs timeframe now res.2 item
        (vals :: res.1, state)) ([], firstRes) =
      (earlier.map fun item => (item.mts,
        weigh (usdPrice getPriceFromData timeframe (timeframe.frames.start item.mts))
          (balances (timeframe.frames.start item.mts)) +
        ((item.vals .plGroupedByTimeframe).bind id).getD 0),
      earlier.head?.elim firstRes fun item' => balances (timeframe.frames.start item'.mts)) := by
    intro earlier
    induction earlier with
    | nil => exact fun _ _ => rfl
    | cons item earlier ih =>
      intro later heq
      have hitem : item ∈ items := by simp [heq]
      rw [List.foldr_cons, ih (later ++ [item]) (by simp [heq])]
      rw [walletsByTimeframe_eq getPriceFromData hforex now _ (hframe item hitem)
        (hvals later item earlier heq)]
      rfl
  rw [reduceRight, hfold items [] rfl]

end Fold

section Closing

/-- The balance of a wallet type and a currency at the end of a frame: of the latest row
until then, or of the first wallet. -/
def closingBalance (timeframe : Timeframe) (firstWallets rows : List WalletRow) (frame : ℤ)
    (type currency : String) : ℚ :=
  ((rows.find? fun row => row.type = type ∧ row.currency = currency ∧
      row.mtsUpdate < nextFrame frame timeframe).or
    (firstWallets.find? fun wallet => wallet.type = type ∧ wallet.currency = currency)).elim 0
    WalletRow.balance

/-- The balances of all wallet types of a currency, at the price of the currency at the
end of the frame, over all currencies. -/
def frameBalance (getPriceFromData : String → ℤ → Option ℚ) (timeframe : Timeframe)
    (firstWallets rows : List WalletRow) (frame : ℤ) : ℚ :=
  ∑ currency ∈ ((firstWallets ++ rows).map WalletRow.currency).toFinset,
    (∑ type ∈ ((firstWallets ++ rows).map WalletRow.type).toFinset,
      closingBalance timeframe firstWallets rows frame type currency) *
    usdPrice getPriceFromData timeframe frame currency

variable {timeframe : Timeframe} {firstWallets rows : List WalletRow} {frame : ℤ}

/-- No wallet type and currency twice in a frame. -/
def UniqueInFrames (timeframe : Timeframe) (rows : List WalletRow) : Prop :=
  rows.Pairwise fun row row' =>
    getStartMtsByTimeframe row.mtsUpdate timeframe =
        getStartMtsByTimeframe row'.mtsUpdate timeframe →
      ¬ (row.type = row'.type ∧ row.currency = row'.currency)

theorem sorted_frames (hsorted : rows.Pairwise fun row row' => row'.mtsUpdate ≤ row.mtsUpdate) :
    rows.reverse.Pairwise fun row row' => getStartMtsByTimeframe row.mtsUpdate timeframe ≤
      getStartMtsByTimeframe row'.mtsUpdate timeframe := by
  refine (List.pairwise_reverse.mpr hsorted).imp ?_
  intro row row' hle
  rw [getStartMtsByTimeframe_eq, getStartMtsByTimeframe_eq]
  exact timeframe.frames.start_mono hle

theorem uniquePairs_of_mem_frameBlocks
    (hsorted : rows.Pairwise fun row row' => row'.mtsUpdate ≤ row.mtsUpdate)
    (hunique : UniqueInFrames timeframe rows) {b : ℤ × List WalletRow}
    (hb : b ∈ frameBlocks timeframe WalletRow.mtsUpdate rows) : UniquePairs b.2 := by
  rw [KeyBlocks.data_eq (sorted_frames hsorted) hb, List.filter_reverse, List.reverse_reverse]
  refine (List.Pairwise.filter _ hunique).imp_of_mem ?_
  intro row row' hrow hrow' hne
  apply hne
  rw [of_decide_eq_true (List.mem_filter.mp hrow).2, of_decide_eq_true (List.mem_filter.mp hrow').2]

/-- What has been carried up to a frame is the latest of the rows until its end. -/
theorem balanceOf_carried (hframe : timeframe.frames.start frame = frame) (type currency : String) :
    balanceOf (carried firstWallets
        ((frameBlocks timeframe WalletRow.mtsUpdate rows).filter fun b => b.1 ≤ frame))
          type currency = closingBalance timeframe firstWallets rows frame type currency := by
  obtain ⟨n, rfl⟩ : ∃ n, timeframe.frames.boundary n = frame := ⟨_, hframe⟩
  have hblocks := KeyBlocks.flatMap_reverse_filter_blocks
    (fun row : WalletRow => getStartMtsByTimeframe row.mtsUpdate timeframe) rows.reverse
    (· ≤ timeframe.frames.boundary n)
  rw [balanceOf, closingBalance, find?_carried, frameBlocks, hblocks, List.filter_reverse,
    List.reverse_reverse, List.find?_filter]
  congr 3
  funext row
  simp only [decide_eq_true_eq, getStartMtsByTimeframe_eq, nextFrame_boundary,
    timeframe.frames.start_le_boundary_iff]
  exact decide_eq_decide.mpr (by tauto)

theorem weigh_carried (getPriceFromData : String → ℤ → Option ℚ)
    (hfirst : UniquePairs firstWallets)
    (hsorted : rows.Pairwise fun row row' => row'.mtsUpdate ≤ row.mtsUpdate)
    (hunique : UniqueInFrames timeframe rows) (hframe : timeframe.frames.start frame = frame) :
    weigh (usdPrice getPriceFromData timeframe frame) (groupWalletsByCurrency
        (carried firstWallets
          ((frameBlocks timeframe WalletRow.mtsUpdate rows).filter fun b => b.1 ≤ frame))) =
      frameBalance getPriceFromData timeframe firstWallets rows frame := by
  have hmem : ∀ wallet ∈ carried firstWallets
      ((frameBlocks timeframe WalletRow.mtsUpdate rows).filter fun b => b.1 ≤ frame),
      wallet ∈ firstWallets ++ rows := by
    intro wallet hwallet
    rcases mem_carried hwallet with hin | ⟨b, hb, hin⟩
    · exact List.mem_append_left _ hin
    · rw [KeyBlocks.data_eq (sorted_frames hsorted) (List.mem_filter.mp hb).1] at hin
      simp only [List.mem_reverse, List.mem_filter] at hin
      exact List.mem_append_right _ hin.1
  have hpairs : UniquePairs (carried firstWallets
      ((frameBlocks timeframe WalletRow.mtsUpdate rows).filter fun b => b.1 ≤ frame)) := by
    apply uniquePairs_carried hfirst
    intro b hb
    exact uniquePairs_of_mem_frameBlocks hsorted hunique (List.mem_filter.mp hb).1
  rw [weigh_groupWalletsByCurrency, sum_wallets _ hpairs
    (fun wallet hwallet => List.mem_toFinset.mpr (List.mem_map_of_mem (hmem wallet hwallet)))
    (fun wallet hwallet => List.mem_toFinset.mpr (List.mem_map_of_mem (hmem wallet hwallet)))]
  simp only [balanceOf_carried hframe]
  rfl

end Closing

section Series

variable {timeframe : Timeframe} {firstWallets rows : List WalletRow} {start stop : ℤ}

/-- The wallets grouped by currency as they stand at the end of a frame. -/
def balancesAt (timeframe : Timeframe) (firstWallets rows : List WalletRow) (frame : ℤ) :
    Balances :=
  groupWalletsByCurrency (carried firstWallets
    ((frameBlocks timeframe WalletRow.mtsUpdate rows).filter fun b => b.1 ≤ frame))

theorem balancesAt_ne_nil {frame : ℤ}
    (hkey : frame ∈ (frameBlocks timeframe WalletRow.mtsUpdate rows).map Prod.fst) :
    balancesAt timeframe firstWallets rows frame ≠ [] := by
  obtain ⟨b, hb, rfl⟩ := List.mem_map.mp hkey
  obtain ⟨row, hrow⟩ := List.exists_mem_of_ne_nil _ (KeyBlocks.data_ne_nil hb)
  apply groupWalletsByCurrency_ne_nil
  intro hnil
  have hnone := find?_carried firstWallets ((frameBlocks timeframe WalletRow.mtsUpdate rows).filter
    fun b' => b'.1 ≤ b.1) row.type row.currency
  rw [hnil, List.find?_nil, eq_comm, Option.or_eq_none_iff] at hnone
  have hin : row ∈ ((frameBlocks timeframe WalletRow.mtsUpdate rows).filter
      fun b' => b'.1 ≤ b.1).reverse.flatMap Prod.snd :=
    List.mem_flatMap.mpr ⟨b, by simp [hb], hrow⟩
  have := List.find?_eq_none.mp hnone.1 row hin
  simp at this

/-- The group at a timestamp of the list of frames. -/
theorem mem_walletGroups (firstWallets : List WalletRow) (h : start ≤ stop)
    (haligned : getStartMtsByTimeframe start timeframe = start)
    (hstart : Moment.isValid start = true) (hstop : Moment.isValid stop = true)
    (hsorted : rows.Pairwise fun row row' => row'.mtsUpdate ≤ row.mtsUpdate)
    (hrange : ∀ row ∈ rows, start ≤ row.mtsUpdate ∧ row.mtsUpdate ≤ stop) {m : ℤ}
    (hm : m ∈ (getMtsGroupedByTimeframe start stop timeframe true).map GroupItem.mts)
    (vals : Balances) :
    ⟨m, vals⟩ ∈ groupByTimeframe (fun row => some row.mtsUpdate) calcWalletsInTimeframe timeframe
        firstWallets rows start stop ↔
      timeframe.frames.start m ∈ (frameBlocks timeframe WalletRow.mtsUpdate rows).map Prod.fst ∧
        vals = balancesAt timeframe firstWallets rows (timeframe.frames.start m) := by
  rw [mem_groupByTimeframe_iff WalletRow.mtsUpdate calcWalletsInTimeframe firstWallets h haligned
    hstart hstop (fun _ _ => rfl) hsorted hrange hm vals]
  exact mem_answers (pairwise_frames timeframe hsorted)
    (fun b hb => KeyBlocks.data_ne_nil hb) _ vals

/-- Frames without rows between leave the balances as they are. -/
theorem balancesAt_of_no_key {frame frame' : ℤ} (hle : frame' ≤ frame)
    (hnone : ∀ b ∈ frameBlocks timeframe WalletRow.mtsUpdate rows, b.1 ≤ frame → b.1 ≤ frame') :
    balancesAt timeframe firstWallets rows frame =
      balancesAt timeframe firstWallets rows frame' := by
  unfold balancesAt
  congr 2
  apply List.filter_congr
  intro b hb
  exact decide_eq_decide.mpr ⟨hnone b hb, fun hle' => hle'.trans hle⟩

theorem balancesAt_eq_first {frame : ℤ}
    (hnone : ∀ b ∈ frameBlocks timeframe WalletRow.mtsUpdate rows, ¬ b.1 ≤ frame) :
    balancesAt timeframe firstWallets rows frame = groupWalletsByCurrency firstWallets := by
  unfold balancesAt
  rw [List.filter_eq_nil_iff.mpr (by simpa using hnone)]
  rfl

/-- A list of items by timestamp, with at most one at each. -/
theorem find?_vals_eq_some {V : Type*} {items : List (GroupItem V)}
    (hitems : items.Pairwise fun item item' => item.mts > item'.mts) (m : ℤ) (vals : V) :
    (items.find? (·.mts = m)).map GroupItem.vals = some vals ↔ ⟨m, vals⟩ ∈ items := by
  have hnodup : (items.map GroupItem.mts).Nodup :=
    List.pairwise_map.mpr (hitems.imp fun hgt => hgt.ne')
  constructor
  · intro hfind
    obtain ⟨item, hitem, rfl⟩ := Option.map_eq_some_iff.mp hfind
    have hm := List.find?_some hitem
    rw [decide_eq_true_eq] at hm
    rw [← hm]
    exact List.mem_of_find?_eq_some hitem
  · intro hmem
    cases hfind : items.find? (·.mts = m) with
    | none =>
      have := List.find?_eq_none.mp hfind _ hmem
      simp at this
    | some item =>
      have hm := List.find?_some hfind
      rw [decide_eq_true_eq] at hm
      have heq := List.inj_on_of_nodup_map hnodup (List.mem_of_find?_eq_some hfind) hmem hm
      rw [heq]
      rfl

/-- The merged series: an item for every timestamp of the list of frames. -/
structure MergedSeries (timeframe : Timeframe) (firstWallets rows : List WalletRow)
    (pl : List (GroupItem (Option ℚ))) (start stop : ℤ)
    (items : List (MergedItem SeriesVals)) : Prop where
  map_mts : items.map MergedItem.mts =
    (getMtsGroupedByTimeframe start stop timeframe true).map GroupItem.mts
  pairwise : items.Pairwise fun item item' => item.mts > item'.mts
  mts_eq : ∀ item ∈ items,
    item.vals .mtsGroupedByTimeframe = some (timeframe.frames.start item.mts)
  wallets_eq : ∀ item ∈ items, ∀ vals, item.vals .walletsGroupedByTimeframe = some vals ↔
    timeframe.frames.start item.mts ∈
        (frameBlocks timeframe WalletRow.mtsUpdate rows).map Prod.fst ∧
      vals = balancesAt timeframe firstWallets rows (timeframe.frames.start item.mts)
  pl_eq : ∀ item ∈ items, item.vals .plGroupedByTimeframe =
    (pl.find? (·.mts = item.mts)).map GroupItem.vals

theorem mergedSeries_mergeData (firstWallets : List WalletRow)
    {pl : List (GroupItem (Option ℚ))} (h : start ≤ stop)
    (haligned : getStartMtsByTimeframe start timeframe = start)
    (hstart : Moment.isValid start = true) (hstop : Moment.isValid stop = true)
    (hsorted : rows.Pairwise fun row row' => row'.mtsUpdate ≤ row.mtsUpdate)
    (hrange : ∀ row ∈ rows, start ≤ row.mtsUpdate ∧ row.mtsUpdate ≤ stop)
    (hpl : pl.Pairwise fun item item' => item.mts > item'.mts)
    (hplMts : ∀ item ∈ pl,
      item.mts ∈ (getMtsGroupedByTimeframe start stop timeframe true).map GroupItem.mts) :
    MergedSeries timeframe firstWallets rows pl start stop
      (mergeData [.walletsGroupedByTimeframe, .mtsGroupedByTimeframe, .plGroupedByTimeframe]
        (seriesData (groupByTimeframe (fun row => some row.mtsUpdate) calcWalletsInTimeframe
          timeframe firstWallets rows start stop)
          (getMtsGroupedByTimeframe start stop timeframe true) pl)) := by
  have hstart' : Moment.isValid (timeframe.frames.start start) = true := by
    rwa [← getStartMtsByTimeframe_eq, haligned]
  have hframes := pairwise_getMtsGroupedByTimeframe timeframe h hstart' hstop
  have hgroups := pairwise_groupByTimeframe WalletRow.mtsUpdate timeframe start stop
    calcWalletsInTimeframe firstWallets (fun _ _ => rfl) hsorted
  have hgroupMts := mem_mts_of_aligned WalletRow.mtsUpdate calcWalletsInTimeframe firstWallets h
    haligned hstart hstop (fun _ _ => rfl) hsorted hrange
  have hdata : ∀ key ∈ [Series.walletsGroupedByTimeframe, .mtsGroupedByTimeframe,
      .plGroupedByTimeframe], (seriesData (groupByTimeframe (fun row => some row.mtsUpdate)
        calcWalletsInTimeframe timeframe firstWallets rows start stop)
        (getMtsGroupedByTimeframe start stop timeframe true) pl key).Pairwise
          fun item item' => item.mts > item'.mts := by
    intro key _
    cases key with
    | walletsGroupedByTimeframe => exact hgroups
    | mtsGroupedByTimeframe => exact hframes
    | plGroupedByTimeframe => exact hpl
  obtain ⟨hpairwise, hmts, hvals⟩ := mergeData_spec _ _ hdata
  have hmem : ∀ m, m ∈ (mergeData [.walletsGroupedByTimeframe, .mtsGroupedByTimeframe,
      .plGroupedByTimeframe] (seriesData (groupByTimeframe (fun row => some row.mtsUpdate)
        calcWalletsInTimeframe timeframe firstWallets rows start stop)
        (getMtsGroupedByTimeframe start stop timeframe true) pl)).map MergedItem.mts ↔
      m ∈ (getMtsGroupedByTimeframe start stop timeframe true).map GroupItem.mts := by
    intro m
    rw [hmts m]
    constructor
    · rintro ⟨key, _, hm⟩
      obtain ⟨item, hitem, rfl⟩ := List.mem_map.mp hm
      cases key with
      | walletsGroupedByTimeframe => exact hgroupMts item hitem
      | mtsGroupedByTimeframe => exact hm
      | plGroupedByTimeframe => exact hplMts item hitem
    · intro hm
      exact ⟨.mtsGroupedByTimeframe, by simp, hm⟩
  refine ⟨?_, hpairwise, ?_, ?_, ?_⟩
  · exact (List.pairwise_map.mpr hpairwise).eq_of_mem_iff (List.pairwise_map.mpr hframes) hmem
  · intro item hitem
    obtain ⟨frame, hframe, heq⟩ := List.mem_map.mp ((hmem item.mts).mp (List.mem_map_of_mem hitem))
    rw [hvals item hitem, ← heq]
    refine ⟨by simp, ?_⟩
    rw [← vals_of_mem_getMtsGroupedByTimeframe timeframe h hstart' hstop hframe]
    exact hframe
  · intro item hitem vals
    rw [hvals item hitem]
    have hm := (hmem item.mts).mp (List.mem_map_of_mem hitem)
    have := mem_walletGroups firstWallets h haligned hstart hstop hsorted hrange hm
      vals
    simpa [seriesData] using this
  · intro item hitem
    apply Option.ext
    intro vals
    rw [hvals item hitem, find?_vals_eq_some hpl]
    simp [seriesData]

/-- A frame without rows has what is left by the frame before it. -/
theorem MergedSeries.wallets_or {pl : List (GroupItem (Option ℚ))}
    {items : List (MergedItem SeriesVals)}
    (hmerged : MergedSeries timeframe firstWallets rows pl start stop items)
    (hkeys : ∀ b ∈ frameBlocks timeframe WalletRow.mtsUpdate rows,
      ∃ item ∈ items, timeframe.frames.start item.mts = b.1)
    (later : List (MergedItem SeriesVals)) (item : MergedItem SeriesVals)
    (earlier : List (MergedItem SeriesVals)) (heq : items = later ++ item :: earlier) :
    item.vals .walletsGroupedByTimeframe =
        some (balancesAt timeframe firstWallets rows (timeframe.frames.start item.mts)) ∧
      balancesAt timeframe firstWallets rows (timeframe.frames.start item.mts) ≠ [] ∨
    item.vals .walletsGroupedByTimeframe = none ∧
      balancesAt timeframe firstWallets rows (timeframe.frames.start item.mts) =
        earlier.head?.elim (groupWalletsByCurrency firstWallets) fun item' =>
          balancesAt timeframe firstWallets rows (timeframe.frames.start item'.mts) := by
  have hitem : item ∈ items := by simp [heq]
  by_cases hkey : timeframe.frames.start item.mts ∈
      (frameBlocks timeframe WalletRow.mtsUpdate rows).map Prod.fst
  · left
    exact ⟨(hmerged.wallets_eq item hitem _).mpr ⟨hkey, rfl⟩, balancesAt_ne_nil hkey⟩
  · right
    have hnone : item.vals .walletsGroupedByTimeframe = none := by
      apply Option.eq_none_iff_forall_ne_some.mpr
      intro vals hvals
      exact hkey ((hmerged.wallets_eq item hitem vals).mp hvals).1
    -- rows before the end of this frame are of one of the earlier frames
    have hearlier : ∀ b ∈ frameBlocks timeframe WalletRow.mtsUpdate rows,
        b.1 ≤ timeframe.frames.start item.mts →
          ∃ item' ∈ earlier, timeframe.frames.start item'.mts = b.1 := by
      intro b hb hle
      obtain ⟨item', hitem', hframe⟩ := hkeys b hb
      have hpairwise := hmerged.pairwise
      rw [heq] at hitem' hpairwise
      rcases List.mem_append.mp hitem' with hlater | hrest
      · have hgt := (List.pairwise_append.mp hpairwise).2.2 item' hlater item List.mem_cons_self
        have hmono := timeframe.frames.start_mono hgt.le
        have hsame : timeframe.frames.start item.mts = b.1 := by omega
        exact absurd (hsame ▸ List.mem_map_of_mem hb) hkey
      · rcases List.mem_cons.mp hrest with rfl | hearlier
        · exact absurd (hframe ▸ List.mem_map_of_mem hb) hkey
        · exact ⟨item', hearlier, hframe⟩
    refine ⟨hnone, ?_⟩
    cases earlier with
    | nil =>
      apply balancesAt_eq_first
      intro b hb hle
      obtain ⟨item', hitem', _⟩ := hearlier b hb hle
      exact absurd hitem' List.not_mem_nil
    | cons before earlier =>
      have hpairwise := hmerged.pairwise
      rw [heq] at hpairwise
      have hbefore := (List.pairwise_cons.mp (List.pairwise_append.mp hpairwise).2.1)
      have hgt := hbefore.1 before List.mem_cons_self
      apply balancesAt_of_no_key (timeframe.frames.start_mono hgt.le)
      intro b hb hle
      obtain ⟨item', hitem', hframe⟩ := hearlier b hb hle
      rw [← hframe]
      rcases List.mem_cons.mp hitem' with rfl | hitem'
      · rfl
      · have hgt' := (List.pairwise_cons.mp hbefore.2).1 item' hitem'
        exact timeframe.frames.start_mono hgt'.le

/-- In every frame of a range that begins with a frame, the balance history has the
balances of the latest rows until its end, as long as rows at turns of years do not
share a currency where the timeframe is a week. -/
theorem getBalanceHistory_eq (getPriceFromData : String → ℤ → Option ℚ) {forexSymbs : List String}
    {pl : List (GroupItem (Option ℚ))} (now : ℤ) (hforex : "USD" ∈ forexSymbs) (h : start ≤ stop)
    (haligned : getStartMtsByTimeframe start timeframe = start)
    (hstart : Moment.isValid start = true) (hstop : Moment.isValid stop = true)
    (hfirst : UniquePairs firstWallets)
    (hsorted : rows.Pairwise fun row row' => row'.mtsUpdate ≤ row.mtsUpdate)
    (hrange : ∀ row ∈ rows, start ≤ row.mtsUpdate ∧ row.mtsUpdate ≤ stop)
    (hunique : UniqueInFrames timeframe rows)
    (hpl : pl.Pairwise fun item item' => item.mts > item'.mts)
    (hplMts : ∀ item ∈ pl,
      item.mts ∈ (getMtsGroupedByTimeframe start stop timeframe true).map GroupItem.mts)
    (hweek : timeframe = .week → NoCurrencyTwice rows) :
    getBalanceHistory getPriceFromData forexSymbs timeframe firstWallets rows pl start stop now =
      (getMtsGroupedByTimeframe start stop timeframe true).map fun item => (item.mts,
        frameBalance getPriceFromData timeframe firstWallets rows item.vals +
          ((pl.find? (·.mts = item.mts)).bind GroupItem.vals).getD 0) := by
  have hwallets : (if timeframe = .week then reGroupWeeklyDataGroups rows else rows) = rows := by
    split_ifs with htimeframe
    · exact reGroupWeeklyDataGroups_eq (hweek htimeframe)
    · rfl
  have hmerged :=
    mergedSeries_mergeData firstWallets h haligned hstart hstop hsorted hrange hpl hplMts
  have hstart' : Moment.isValid (timeframe.frames.start start) = true := by
    rwa [← getStartMtsByTimeframe_eq, haligned]
  unfold getBalanceHistory
  rw [hwallets, reduceRight_eq getPriceFromData hforex now _
    (balancesAt timeframe firstWallets rows) hmerged.mts_eq]
  · generalize @mergeData Series _ SeriesVals _ _ = items at hmerged ⊢
    let value := fun m : ℤ => (m,
      frameBalance getPriceFromData timeframe firstWallets rows (timeframe.frames.start m) +
        ((pl.find? (·.mts = m)).bind GroupItem.vals).getD 0)
    calc _ = (items.map MergedItem.mts).map value := by
          rw [List.map_map]
          apply List.map_congr_left
          intro item hitem
          rw [balancesAt, weigh_carried getPriceFromData hfirst hsorted hunique
            (timeframe.frames.start_start item.mts), hmerged.pl_eq item hitem]
          cases hfind : pl.find? (·.mts = item.mts) <;> simp [value, hfind]
      _ = ((getMtsGroupedByTimeframe start stop timeframe true).map GroupItem.mts).map value := by
          rw [hmerged.map_mts]
      _ = _ := by
          rw [List.map_map]
          apply List.map_congr_left
          intro item hitem
          rw [vals_of_mem_getMtsGroupedByTimeframe timeframe h hstart' hstop hitem]
          rfl
  · apply hmerged.wallets_or
    intro b hb
    obtain ⟨row, hrow, hkey⟩ := KeyBlocks.mem_keys.mp (List.mem_map_of_mem hb)
    have hin := hrange row (List.mem_reverse.mp hrow)
    rw [getStartMtsByTimeframe_eq] at hkey
    obtain ⟨m, hm, hframe⟩ := exists_mts_of_frame timeframe h hstart' hstop
      (timeframe.frames.start_start row.mtsUpdate) (timeframe.frames.start_mono hin.1)
      (timeframe.frames.start_mono hin.2)
    rw [← hmerged.map_mts] at hm
    obtain ⟨item, hitem, rfl⟩ := List.mem_map.mp hm
    exact ⟨item, hitem, hframe.trans hkey⟩

end Series

namespace TurnOfYearWitness

/-- 21 December 2020, a Monday. -/
def start : ℤ := 1608508800000

/-- 3 January 2021. -/
def stop : ℤ := 1609632000000

/-- The price of one currency. -/
def price (symb : String) (_ : ℤ) : Option ℚ :=
  if symb = "tBTCUSD" then some 100 else none

/-- USD in two wallets in the week of the first of January. -/
def twoWallets : List WalletRow :=
  [⟨"margin", "USD", 10, 1609372800000⟩, ⟨"exchange", "USD", 5, 1609286400000⟩,
    ⟨"exchange", "USD", 1, 1608595200000⟩]

/-- Another currency in one of them. -/
def twoCurrencies : List WalletRow :=
  [⟨"margin", "USD", 10, 1609372800000⟩, ⟨"exchange", "BTC", 5, 1609286400000⟩]

/-- The row of the exchange wallet is dropped, and its balance of the week before stands. -/
theorem exchange_wallet_dropped :
    getBalanceHistory price ["USD"] .week [] twoWallets [] start stop 0 =
        [(stop, 11), (start, 1)] ∧
      (frameBalance price .week [] twoWallets 1609113600000 = 15 ∧
        frameBalance price .week [] twoWallets start = 1) := by
  refine ⟨by decide +kernel, by decide +kernel, by decide +kernel⟩

theorem getBalanceHistory_eq_twoCurrencies :
    getBalanceHistory price ["USD"] .week [] twoCurrencies [⟨stop, some 2⟩] start stop 0 =
      [(stop, 512), (start, 0)] := by
  have hweek : Timeframe.week = .week → NoCurrencyTwice twoCurrencies := by
    intro _ run hrun _
    exact (hrun.sublist.map WalletRow.currency).nodup (by decide)
  rw [getBalanceHistory_eq price 0 (by decide) (by decide) (by decide) (by decide) (by decide)
    List.Pairwise.nil (by decide) (by decide) (by unfold UniqueInFrames; decide)
    (by decide) (by decide) hweek]
  decide +kernel

end TurnOfYearWitness

end ReportsFramework
