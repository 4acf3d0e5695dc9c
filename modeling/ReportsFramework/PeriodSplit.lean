/-
The FIFO report of a period against one pass over the whole history.  The open
lots that the first look-up hands over make the ledger that the single pass has
reached at the start of the period.
-/
import ReportsFramework.FifoLedger
import ReportsFramework.TransactionTaxReport

namespace ReportsFramework

open Trx LotQueue

/-- What `remapTrades` and `remapMovements` make sure of.  The price of a
movement, which is quoted in dollars, is 0 until it is converted. -/
structure Trx.Remapped (env : TaxEnv) (trx : Trx) : Prop where
  symbol : trx.symbol ≠ ""
  firstSymb : trx.firstSymb ≠ ""
  lastSymb : trx.lastSymb ≠ ""
  execAmount : ∃ amount, trx.execAmount = some amount ∧ amount ≠ 0
  execPrice : ∃ price, trx.execPrice = some price ∧
    (price = 0 → trx.isAdditionalTrxMovements = true)
  movement : trx.isAdditionalTrxMovements = true →
    env.isForexSymb trx.lastSymb = true

/-- The options of the first look-up. -/
def prevOpts : LookUpOpts :=
  { fifoOpts with
    isBuyTradesWithUnrealizedProfitRequired := true
    isNotGainOrLossRequired := true }

theorem isFifo_prevOpts : IsFifo prevOpts := ⟨rfl, rfl, rfl⟩

variable {env : TaxEnv} {trx : Trx} {conv : Conversion}

namespace Trx.Remapped

theorem symbPair (h : trx.Remapped env) :
    trx.symbPair env = (trx.firstSymb, trx.lastSymb) := by
  simp [Trx.symbPair, h.firstSymb, h.lastSymb]

theorem withSymbs (h : trx.Remapped env) : trx.withSymbs env = trx := by
  simp only [Trx.withSymbs, h.symbPair]

theorem amount_ne_zero (h : trx.Remapped env) : trx.amount ≠ 0 := by
  obtain ⟨amount, hamount, hne⟩ := h.execAmount
  simpa [Trx.amount, hamount] using hne

/-- What is quoted in a cryptocurrency is a trade. -/
theorem not_movement (h : trx.Remapped env)
    (hlast : env.isForexSymb trx.lastSymb = false) :
    trx.isAdditionalTrxMovements = false := by
  by_contra hmovement
  have hforex := h.movement (by simpa using hmovement)
  rw [hlast] at hforex
  exact Bool.false_ne_true hforex

theorem price_ne_zero (h : trx.Remapped env)
    (hlast : env.isForexSymb trx.lastSymb = false) : trx.price ≠ 0 := by
  obtain ⟨price, hprice, hmovement⟩ := h.execPrice
  intro hzero
  simp only [Trx.price, hprice, Option.getD_some] at hzero
  have htrade := h.not_movement hlast
  rw [hmovement hzero] at htrade
  exact Bool.false_ne_true htrade.symm

theorem ready (h : trx.Remapped env) : trx.Ready env prevOpts := by
  obtain ⟨amount, hamount, hne⟩ := h.execAmount
  obtain ⟨price, hprice, -⟩ := h.execPrice
  have habs := abs_pos.mpr h.amount_ne_zero
  refine ⟨?_, ?_, rfl, rfl, fun hsells => ?_, fun hlot => ?_⟩
  · simp [canBeLookedUp, h.symbol, hamount, hprice, hne, Trx.amount, prevOpts]
  · simp [symbError?, h.symbPair, h.firstSymb, h.lastSymb]
  · simp only [sells, h.symbPair, Bool.or_eq_true, decide_eq_true_eq,
      Bool.and_eq_true, Bool.not_eq_true'] at hsells
    unfold soldAmount
    rcases hsells with hneg | ⟨hpos, hlast⟩
    · simpa only [hneg, ↓reduceIte] using habs
    · simp only [not_lt.mpr hpos.le, ↓reduceIte]
      exact abs_pos.mpr (mul_ne_zero h.amount_ne_zero (h.price_ne_zero hlast))
  · simp only [isNoLot, h.symbPair, Bool.or_eq_false_iff,
      Bool.and_eq_false_iff, decide_eq_false_iff_not] at hlot
    unfold boughtAmount
    by_cases hpos : 0 < trx.amount
    · simpa only [hpos, ↓reduceIte] using habs
    · have hneg := lt_of_le_of_ne (not_lt.mp hpos) h.amount_ne_zero
      have hlast := hlot.1.resolve_left (not_not.mpr hneg)
      simp only [hpos, ↓reduceIte]
      exact abs_pos.mpr (mul_ne_zero h.amount_ne_zero (h.price_ne_zero hlast))

theorem readyTrade (h : trx.Remapped env) :
    ReadyTrade env prevOpts (Trade.ofTrx trx) := by
  refine ⟨⟨h.ready, fun hno => ?_⟩, rfl, fun _ => ⟨rfl, rfl, rfl, rfl⟩⟩
  simpa [Trade.ofTrx] using h.ready.bought_pos hno

end Trx.Remapped

namespace Conversion

/-- A conversion keeps all that the matching of lots reads. -/
theorem amount_convert : (conv.convert trx).amount = trx.amount := by
  unfold convert
  split <;> rfl

theorem mtsCreate_convert : (conv.convert trx).mtsCreate = trx.mtsCreate := by
  unfold convert
  split <;> rfl

theorem isTaxablePayment_convert :
    (conv.convert trx).isTaxablePayment = trx.isTaxablePayment := by
  unfold convert
  split <;> rfl

theorem symbPair_convert :
    (conv.convert trx).symbPair env = trx.symbPair env := by
  unfold convert
  split <;> rfl

theorem withSymbs_convert (h : trx.Remapped env) :
    (conv.convert trx).withSymbs env = conv.convert trx := by
  rw [Trx.withSymbs, symbPair_convert, h.symbPair]
  unfold convert
  split <;> rfl

theorem price_convert (hadditional : trx.isAdditionalTrxMovements = false) :
    (conv.convert trx).price = trx.price := by
  unfold convert
  split
  · rfl
  · simp [Trx.price, hadditional]

theorem sells_convert : (conv.convert trx).sells env = trx.sells env := by
  simp only [sells, amount_convert, symbPair_convert]

theorem isNoLot_convert : (conv.convert trx).isNoLot env = trx.isNoLot env := by
  simp only [isNoLot, amount_convert, symbPair_convert,
    isTaxablePayment_convert]

theorem soldAsset_convert :
    (conv.convert trx).soldAsset env = trx.soldAsset env := by
  simp only [soldAsset, amount_convert, symbPair_convert]

theorem boughtAsset_convert :
    (conv.convert trx).boughtAsset env = trx.boughtAsset env := by
  simp only [boughtAsset, amount_convert, symbPair_convert]

theorem soldAmount_convert (h : trx.Remapped env)
    (hsells : trx.sells env = true) :
    (conv.convert trx).soldAmount = trx.soldAmount := by
  simp only [sells, h.symbPair, Bool.or_eq_true, decide_eq_true_eq,
    Bool.and_eq_true, Bool.not_eq_true'] at hsells
  unfold soldAmount
  rw [amount_convert]
  rcases hsells with hneg | ⟨-, hlast⟩
  · simp only [hneg, ↓reduceIte]
  · rw [price_convert (h.not_movement hlast)]

theorem boughtAmount_convert (h : trx.Remapped env)
    (hlot : trx.isNoLot env = false) :
    (conv.convert trx).boughtAmount = trx.boughtAmount := by
  simp only [isNoLot, h.symbPair, Bool.or_eq_false_iff,
    Bool.and_eq_false_iff, decide_eq_false_iff_not] at hlot
  unfold boughtAmount
  rw [amount_convert]
  by_cases hpos : 0 < trx.amount
  · simp only [hpos, ↓reduceIte]
  · have hneg := lt_of_le_of_ne (not_lt.mp hpos) h.amount_ne_zero
    have hlast := hlot.1.resolve_left (not_not.mpr hneg)
    rw [price_convert (h.not_movement hlast)]

/-- Converting a trade relabels its lot and its deal. -/
theorem openLot?_convertTrade {trade : Trade} (h : trade.toTrx.Remapped env)
    (asset : String) :
    openLot? env asset (conv.convertTrade trade) =
      (openLot? env asset trade).map (Lot.retag conv.convert) := by
  simp only [openLot?, convertTrade, isNoLot_convert, boughtAsset_convert,
    withSymbs_convert h, h.withSymbs]
  split
  next hopen =>
    simp only [Bool.and_eq_true, Bool.not_eq_true'] at hopen
    rw [boughtAmount_convert h hopen.1.2]
    rfl
  · rfl

theorem deal_convertTrade {trade : Trade} (h : trade.toTrx.Remapped env) :
    (conv.convertTrade trade).deal env =
      (trade.deal env).retag conv.convert := by
  have htrx : (conv.convertTrade trade).toTrx = conv.convert trade.toTrx := rfl
  have hflag :
      (conv.convertTrade trade).isBuyTradesWithUnrealizedProfitForPrevPeriod =
        trade.isBuyTradesWithUnrealizedProfitForPrevPeriod := rfl
  simp only [Trade.deal, Deal.retag, htrx, hflag, boughtAsset_convert,
    sells_convert, soldAsset_convert, openLot?_convertTrade h, Deal.mk.injEq]
  constructor
  · cases hsells : trade.sells env with
    | false => rfl
    | true => rw [soldAmount_convert h hsells]
  · cases openLot? env (trade.boughtAsset env) trade <;> rfl

end Conversion

section Carried

variable {trades : List Trade}

/-- Trades that only carry lots over sell nothing and are due no entry. -/
theorem run_of_carried (hcarried : ∀ t ∈ trades,
      t.isBuyTradesWithUnrealizedProfitForPrevPeriod = true) :
    Ledger.empty.run (trades.reverse.map (Trade.deal env)) =
      openLots env trades := by
  induction trades with
  | nil => rfl
  | cons trade older ih =>
      obtain ⟨htrade, holder⟩ := List.forall_mem_cons.mp hcarried
      rw [List.reverse_cons, List.map_append, Ledger.run_append, ih holder]
      funext asset
      rw [openLots_cons, List.map_singleton]
      show (openLots env older).settle (trade.deal env) asset = _
      rw [Ledger.settle, lotOf_deal, Ledger.sell]
      simp [Trade.deal, htrade]

theorem dueSales_of_carried {opts : LookUpOpts}
    (hcarried : ∀ t ∈ trades,
      t.isBuyTradesWithUnrealizedProfitForPrevPeriod = true)
    (ledger : Ledger String Trx ℚ) :
    dueSales env opts ledger trades = [] := by
  induction trades generalizing ledger with
  | nil => rfl
  | cons trade later ih =>
      obtain ⟨htrade, hlater⟩ := List.forall_mem_cons.mp hcarried
      simp [dueSales, dueSale, Trade.isListedSale, htrade, ih hlater]

end Carried

/-- What the first look-up hands over, once it has prices. -/
def carriedTrades (conv : Conversion) (trades : List Trade) : List Trade :=
  ((trades.filter (isUnrealized prevOpts)).map
    (markUnrealized prevOpts)).map conv.convertTrade

theorem openLot?_of_not_unrealized {trade : Trade}
    (h : trade.toTrx.Remapped env) (hno : trade.noPriceUsd = false)
    (hbuys : trade.buys env = true → trade.isBuyTrx = true)
    (hreal : isUnrealized prevOpts trade = false) (asset : String) :
    openLot? env asset trade = none := by
  cases hhist : trade.isBuyTrxHistFilled with
  | true => simp [openLot?, hhist]
  | false =>
      have hnotBuys : trade.buys env = false := by
        by_contra hbuys'
        have hbuyTrx := hbuys (by simpa using hbuys')
        simp [isUnrealized, prevOpts, hno, hbuyTrx, hhist] at hreal
      have hnoLot : trade.isNoLot env = true := by
        rcases lt_or_gt_of_ne h.amount_ne_zero with hneg | hpos
        · simpa [isNoLot, buys, hneg, not_lt.mpr hneg.le,
            ← Bool.not_eq_true, imp_iff_not_or] using hnotBuys
        · simpa [isNoLot, buys, hpos, not_lt.mpr hpos.le] using hnotBuys
      simp [openLot?, hnoLot]

/-- A trade as the first look-up leaves it. -/
structure LeftOver (env : TaxEnv) (trade : Trade) : Prop where
  remapped : trade.toTrx.Remapped env
  lot : ReadyLot env prevOpts trade
  noPriceUsd : trade.noPriceUsd = false
  isBuyTrx : trade.buys env = true → trade.isBuyTrx = true

theorem openLots_carriedTrades {trades : List Trade}
    (htrades : ∀ t ∈ trades, LeftOver env t) :
    openLots env (carriedTrades conv trades) =
      (openLots env trades).retag conv.convert := by
  funext asset
  simp only [openLots, carriedTrades, Ledger.retag, ← List.map_reverse,
    ← List.filter_reverse, List.filterMap_map, List.filterMap_filter,
    List.map_filterMap]
  refine List.filterMap_congr fun trade hmem => ?_
  obtain ⟨hremapped, -, hno, hbuys⟩ := htrades trade (List.mem_reverse.mp hmem)
  by_cases hopen : isUnrealized prevOpts trade = true
  · have hremapped' : (markUnrealized prevOpts trade).toTrx.Remapped env := by
      simpa only [markUnrealized, hopen, ↓reduceIte] using hremapped
    simp only [hopen, ↓reduceIte, Function.comp_apply]
    rw [Conversion.openLot?_convertTrade hremapped']
    simp only [markUnrealized, hopen, ↓reduceIte]
    rfl
  · simp only [hopen, Bool.false_eq_true, ↓reduceIte]
    rw [openLot?_of_not_unrealized hremapped hno hbuys (by simpa using hopen)]
    rfl

theorem readyTrade_of_carried (conv : Conversion) {trades : List Trade}
    (htrades : ∀ t ∈ trades, LeftOver env t)
    (hcomplete : ∀ t ∈ trades, (conv.convert t.toTrx).Complete env) :
    ∀ t ∈ carriedTrades conv trades, ReadyTrade env fifoOpts t ∧
      t.isBuyTradesWithUnrealizedProfitForPrevPeriod = true := by
  intro carried hmem
  simp only [carriedTrades, List.mem_map, List.mem_filter] at hmem
  obtain ⟨_, ⟨trade, ⟨htrade, hopen⟩, rfl⟩, rfl⟩ := hmem
  obtain ⟨hremapped, hlot, hno, -⟩ := htrades trade htrade
  simp only [markUnrealized, hopen, ↓reduceIte]
  refine ⟨⟨⟨(hcomplete trade htrade).ready fifoOpts, fun hnoLot => ?_⟩, hno,
    fun hflag => absurd hflag (by simp [Conversion.convertTrade])⟩, rfl⟩
  have hnoLot' : trade.isNoLot env = false :=
    Conversion.isNoLot_convert.symm.trans hnoLot
  have hamount : (conv.convert trade.toTrx).boughtAmount =
      trade.boughtAmount := Conversion.boughtAmount_convert hremapped hnoLot'
  show trade.isBuyTrxHistFilled = true ↔
    (conv.convert trade.toTrx).boughtAmount ≤ trade.buyFilledAmount
  rw [hamount]
  exact hlot.filled hnoLot'

/-- The first look-up: what it hands over are lots of its ledger. -/
theorem lookUpTrades_prev {ctx : LookUpCtx} (hctx : ctx.pollsLeft = none)
    {prev : List Trx} (hremapped : ∀ trx ∈ prev, trx.Remapped env) :
    ∃ trades,
      (lookUpTrades env prevOpts ctx (prev.map Trade.ofTrx)).exit =
        .completed ∧
      (lookUpTrades env prevOpts ctx (prev.map Trade.ofTrx)).ctx = ctx ∧
      (lookUpTrades env prevOpts ctx
          (prev.map Trade.ofTrx)).buyTradesWithUnrealizedProfit =
        (trades.filter (isUnrealized prevOpts)).map
          (markUnrealized prevOpts) ∧
      (∀ t ∈ trades, LeftOver env t ∧ t.toTrx ∈ prev) ∧
      openLots env trades = Ledger.empty.run
        ((prev.map Trade.ofTrx).reverse.map (Trade.deal env)) := by
  have hready : ∀ t ∈ prev.map Trade.ofTrx, ReadyTrade env prevOpts t := by
    simp only [List.mem_map, forall_exists_index, and_imp,
      forall_apply_eq_imp_iff₂]
    exact fun trx hmem => (hremapped trx hmem).readyTrade
  obtain ⟨trades, hrun, hlots, hseen, hledger, -⟩ :=
    lookUpSalesBack_settles isFifo_prevOpts hctx (prev.map Trade.ofTrx) hready
  have hsales : lookUpSales env prevOpts ctx (prev.map Trade.ofTrx) =
      { trades, ctx } := hrun
  refine ⟨trades, by simp [lookUpTrades, hsales], by
    simp [lookUpTrades, hsales], by simp [lookUpTrades, hsales],
    fun trade hmem => ?_, hledger⟩
  obtain ⟨_, hprev, hsaw⟩ := mem_of_forall₂ hseen hmem
  obtain ⟨trx, htrx, rfl⟩ := List.mem_map.mp hprev
  have hsame : trade.toTrx = trx := hsaw.named (hremapped trx htrx).withSymbs
  have hbuys : trade.buys env = (Trade.ofTrx trx).buys env := by
    rw [hsame]
    rfl
  exact ⟨⟨hsame ▸ hremapped trx htrx, hlots trade hmem, hsaw.noPriceUsd,
    fun h => hsaw.isBuyTrx (hbuys ▸ h)⟩, hsame ▸ htrx⟩

/-- The entries of a sale made in the requested period. -/
def TaxEntry.isSaleSince (start : ℕ) (entry : TaxEntry) : Bool :=
  entry.cost.isSome && entry.mtsSold.any (start ≤ ·)

theorem mem_dueSales {opts : LookUpOpts} {entry : TaxEntry}
    {ledger : Ledger String Trx ℚ} {trades : List Trade}
    (hmem : entry ∈ dueSales env opts ledger trades) :
    entry.cost.isSome = true ∧
      ∃ t ∈ trades, entry.mtsSold = some t.mtsCreate := by
  induction trades generalizing ledger with
  | nil => simp [dueSales] at hmem
  | cons trade later ih =>
      rw [dueSales, List.mem_append, Option.mem_toList] at hmem
      rcases hmem with hhead | hlater
      · simp only [dueSale, Option.ite_none_right_eq_some, Option.some.injEq] at hhead
        obtain ⟨-, rfl⟩ := hhead
        exact ⟨rfl, trade, List.mem_cons_self, rfl⟩
      · obtain ⟨hcost, t, ht, hmts⟩ := ih hlater
        exact ⟨hcost, t, List.mem_cons_of_mem _ ht, hmts⟩

theorem dueSales_since {opts : LookUpOpts} {start : ℕ}
    (ledger : Ledger String Trx ℚ) {trades : List Trade}
    (hsince : ∀ t ∈ trades, start ≤ t.mtsCreate) :
    (dueSales env opts ledger trades).filter (TaxEntry.isSaleSince start) =
      dueSales env opts ledger trades := by
  rw [List.filter_eq_self]
  intro entry hmem
  obtain ⟨hcost, t, ht, hmts⟩ := mem_dueSales hmem
  simp [TaxEntry.isSaleSince, hcost, hmts, hsince t ht]

theorem dueSales_before {opts : LookUpOpts} {start : ℕ}
    (ledger : Ledger String Trx ℚ) {trades : List Trade}
    (hbefore : ∀ t ∈ trades, t.mtsCreate < start) :
    (dueSales env opts ledger trades).filter (TaxEntry.isSaleSince start) =
      [] := by
  rw [List.filter_eq_nil_iff]
  intro entry hmem
  obtain ⟨hcost, t, ht, hmts⟩ := mem_dueSales hmem
  simp [TaxEntry.isSaleSince, hmts, hbefore t ht]

/-- A history that stands newest first is its current period and, behind it,
its previous one. -/
theorem getTrxs_append_getTrxs {start finish : ℕ} (hstart : 0 < start)
    (hle : start ≤ finish) {history : List Trx}
    (hsorted : history.Pairwise fun newer older =>
      older.mtsCreate ≤ newer.mtsCreate) :
    getTrxs history start finish ++ getTrxs history 0 (start - 1) =
      getTrxs history 0 finish := by
  induction history with
  | nil => rfl
  | cons trx older ih =>
      obtain ⟨htrx, holder⟩ := List.pairwise_cons.mp hsorted
      have hih := ih holder
      simp only [getTrxs, List.filter_cons, Nat.zero_le, decide_true,
        Bool.true_and] at hih ⊢
      by_cases hcurr : start ≤ trx.mtsCreate
      · have hprev : ¬ trx.mtsCreate ≤ start - 1 := by omega
        by_cases hend : trx.mtsCreate ≤ finish
        · simp [hcurr, hprev, hend, hih]
        · simp [hcurr, hprev, hend, hih]
      · have hprev : trx.mtsCreate ≤ start - 1 := by omega
        have hend : trx.mtsCreate ≤ finish := by omega
        have hnone : older.filter (fun trx => decide (start ≤ trx.mtsCreate) &&
            decide (trx.mtsCreate ≤ finish)) = [] := by
          rw [List.filter_eq_nil_iff]
          intro t ht
          have := htrx t ht
          simp
          omega
        rw [hnone, List.nil_append] at hih
        simp [hcurr, hprev, hend, hnone, hih]

/-- The transactions of a period, with their prices, as fresh objects. -/
def pricedTrades (conv : Conversion) (trxs : List Trx) : List Trade :=
  trxs.map fun trx => Trade.ofTrx (conv.convert trx)

theorem deals_pricedTrades {trxs : List Trx}
    (hremapped : ∀ trx ∈ trxs, trx.Remapped env) :
    (pricedTrades conv trxs).reverse.map (Trade.deal env) =
      ((trxs.map Trade.ofTrx).reverse.map (Trade.deal env)).map
        (Deal.retag conv.convert) := by
  simp only [pricedTrades, ← List.map_reverse, List.map_map]
  refine List.map_congr_left fun trx hmem => ?_
  have htrx : (Trade.ofTrx trx).toTrx.Remapped env :=
    hremapped trx (List.mem_reverse.mp hmem)
  have hconverted : Trade.ofTrx (conv.convert trx) =
      conv.convertTrade (Trade.ofTrx trx) := rfl
  simp only [Function.comp_apply, hconverted]
  exact Conversion.deal_convertTrade htrx

theorem readyTrade_pricedTrades {trxs : List Trx}
    (hcomplete : ∀ trx ∈ trxs, (conv.convert trx).Complete env) :
    ∀ t ∈ pricedTrades conv trxs, ReadyTrade env fifoOpts t := by
  simp only [pricedTrades, List.mem_map, forall_exists_index, and_imp,
    forall_apply_eq_imp_iff₂]
  exact fun trx hmem => (hcomplete trx hmem).readyTrade fifoOpts

/-- The entries of the period in one pass over the whole history. -/
theorem singlePass_since {ctx : LookUpCtx} (hctx : ctx.pollsLeft = none)
    (start : ℕ) (curr : List Trx) {prev : List Trx}
    (hremapped : ∀ trx ∈ prev, trx.Remapped env)
    (hcomplete : ∀ trx ∈ curr ++ prev, (conv.convert trx).Complete env)
    (hcurr : ∀ trx ∈ curr, start ≤ trx.mtsCreate)
    (hprev : ∀ trx ∈ prev, trx.mtsCreate < start) :
    (lookUpTrades env fifoOpts ctx
        (pricedTrades conv (curr ++ prev))).saleTradesWithRealizedProfit.filter
          (TaxEntry.isSaleSince start) =
      (dueSales env fifoOpts
        ((Ledger.empty.run ((prev.map Trade.ofTrx).reverse.map
          (Trade.deal env))).retag conv.convert)
        (pricedTrades conv curr).reverse).reverse := by
  have hentries := lookUpTrades_saleEntries isFifo_fifoOpts rfl hctx _
    (readyTrade_pricedTrades hcomplete)
  have hsince : ∀ t ∈ (pricedTrades conv curr).reverse,
      start ≤ t.mtsCreate := by
    simp only [pricedTrades, List.mem_reverse, List.mem_map,
      forall_exists_index, and_imp, forall_apply_eq_imp_iff₂]
    intro trx hmem
    exact (hcurr trx hmem).trans_eq Conversion.mtsCreate_convert.symm
  have hbefore : ∀ t ∈ (pricedTrades conv prev).reverse,
      t.mtsCreate < start := by
    simp only [pricedTrades, List.mem_reverse, List.mem_map,
      forall_exists_index, and_imp, forall_apply_eq_imp_iff₂]
    intro trx hmem
    exact Conversion.mtsCreate_convert.trans_lt (hprev trx hmem)
  have hsplit : pricedTrades conv (curr ++ prev) =
      pricedTrades conv curr ++ pricedTrades conv prev := List.map_append
  have hfilter : ∀ entries : List TaxEntry,
      entries.filter (TaxEntry.isSaleSince start) =
        (entries.filter fun entry => entry.cost.isSome).filter
          (TaxEntry.isSaleSince start) := by
    intro entries
    rw [List.filter_filter]
    refine List.filter_congr fun entry _ => ?_
    cases hcost : entry.cost.isSome <;> simp [TaxEntry.isSaleSince, hcost]
  rw [hfilter, hentries, hsplit, List.reverse_append, dueSales_append,
    List.filter_reverse, List.filter_append, dueSales_before _ hbefore,
    dueSales_since _ hsince, List.nil_append, deals_pricedTrades hremapped]
  rw [← Ledger.run_retag]
  rfl

/-- The second look-up starts from the ledger of the lots carried over. -/
theorem lookUpTrades_curr {ctx : LookUpCtx} (hctx : ctx.pollsLeft = none)
    {curr : List Trx} {trades : List Trade}
    (hcurr : ∀ trx ∈ curr, (conv.convert trx).Complete env)
    (htrades : ∀ t ∈ trades, LeftOver env t)
    (hcomplete : ∀ t ∈ trades, (conv.convert t.toTrx).Complete env) :
    (lookUpTrades env fifoOpts ctx (pricedTrades conv curr ++
        carriedTrades conv trades)).saleTradesWithRealizedProfit.filter
          (fun entry => entry.cost.isSome) =
      (dueSales env fifoOpts ((openLots env trades).retag conv.convert)
        (pricedTrades conv curr).reverse).reverse := by
  have hcarried := readyTrade_of_carried conv htrades hcomplete
  have hready : ∀ t ∈ pricedTrades conv curr ++ carriedTrades conv trades,
      ReadyTrade env fifoOpts t := by
    intro t hmem
    rcases List.mem_append.mp hmem with hcurr' | hcarried'
    · exact readyTrade_pricedTrades hcurr t hcurr'
    · exact (hcarried t hcarried').1
  rw [lookUpTrades_saleEntries isFifo_fifoOpts rfl hctx _ hready,
    List.reverse_append, dueSales_append,
    dueSales_of_carried fun t hmem =>
      (hcarried t (List.mem_reverse.mp hmem)).2,
    run_of_carried fun t hmem => (hcarried t hmem).2,
    openLots_carriedTrades htrades, List.nil_append]

theorem lookUpTrades_completes {ctx : LookUpCtx} {opts : LookUpOpts}
    (hfifo : IsFifo opts) (hctx : ctx.pollsLeft = none) {trades : List Trade}
    (hready : ∀ t ∈ trades, ReadyTrade env opts t) :
    (lookUpTrades env opts ctx trades).exit = .completed ∧
      (lookUpTrades env opts ctx trades).ctx = ctx := by
  obtain ⟨trades', hrun, -⟩ := lookUpSalesBack_settles hfifo hctx trades hready
  have hsales : lookUpSales env opts ctx trades = { trades := trades', ctx } := by
    simp only [lookUpSales, hfifo.sales, ↓reduceIte, hrun]
  exact ⟨by simp [lookUpTrades, hsales], by simp [lookUpTrades, hsales]⟩

section Split

variable {history : List Trx} {start finish : ℕ} {ctx : LookUpCtx}

theorem mem_period {lo hi : ℕ} :
    trx ∈ getTrxs history lo hi ↔
      trx ∈ history ∧ lo ≤ trx.mtsCreate ∧ trx.mtsCreate ≤ hi := by
  simp [getTrxs]

/-- The transactions of the first look-up. -/
def trxsForPrevPeriod (history : List Trx) (start : ℕ) : List Trx :=
  if 0 < start then getTrxs history 0 (start - 1) else []

theorem of_mem_trxsForPrevPeriod (h : trx ∈ trxsForPrevPeriod history start) :
    trx ∈ history ∧ trx.mtsCreate < start := by
  unfold trxsForPrevPeriod at h
  split at h
  next hpos =>
    obtain ⟨hmem, -, hle⟩ := mem_period.mp h
    exact ⟨hmem, by omega⟩
  · cases h

theorem getTrxs_append_trxsForPrevPeriod (hle : start ≤ finish)
    (hsorted : history.Pairwise fun newer older =>
      older.mtsCreate ≤ newer.mtsCreate) :
    getTrxs history start finish ++ trxsForPrevPeriod history start =
      getTrxs history 0 finish := by
  unfold trxsForPrevPeriod
  split
  next hpos => exact getTrxs_append_getTrxs hpos hle hsorted
  next hzero =>
    obtain rfl : start = 0 := by omega
    exact List.append_nil _

/-- The single pass has no sales in a period without transactions. -/
theorem singlePass_of_empty (hctx : ctx.pollsLeft = none)
    (hremapped : ∀ trx ∈ history, trx.Remapped env)
    (hcomplete : ∀ trx ∈ history, (conv.convert trx).Complete env)
    (hempty : getTrxs history start finish = []) :
    (lookUpTrades env fifoOpts ctx (pricedTrades conv
        (getTrxs history 0 finish))).saleTradesWithRealizedProfit.filter
          (TaxEntry.isSaleSince start) = [] := by
  have hbefore : ∀ trx ∈ getTrxs history 0 finish, trx.mtsCreate < start := by
    intro trx h
    obtain ⟨hmem, -, hfinish⟩ := mem_period.mp h
    by_contra hsince
    have hcurr := mem_period.mpr ⟨hmem, not_lt.mp hsince, hfinish⟩
    rw [hempty] at hcurr
    exact absurd hcurr List.not_mem_nil
  have hpass := singlePass_since hctx start []
    (fun trx h => hremapped trx (mem_period.mp h).1)
    (fun trx h => hcomplete trx (mem_period.mp h).1) (by simp) hbefore
  rw [List.nil_append] at hpass
  rw [hpass]
  rfl

/-- The report is that of the second look-up, which takes the transactions of the
period and the lots carried over. -/
theorem getTransactionTaxReport_eq_second (hempty : getTrxs history start finish ≠ [])
    (hconv : ∀ trxs, (conv.ctx ctx trxs).pollsLeft = none) {trades : List Trade}
    (hexit : (lookUpTrades env prevOpts ctx
      ((trxsForPrevPeriod history start).map Trade.ofTrx)).exit = .completed)
    (hprevCtx : (lookUpTrades env prevOpts ctx
      ((trxsForPrevPeriod history start).map Trade.ofTrx)).ctx = ctx)
    (hbuys : (lookUpTrades env prevOpts ctx
      ((trxsForPrevPeriod history start).map Trade.ofTrx)).buyTradesWithUnrealizedProfit =
        (trades.filter (isUnrealized prevOpts)).map (markUnrealized prevOpts))
    (hready : ∀ t ∈ pricedTrades conv (getTrxs history start finish) ++
      carriedTrades conv trades, ReadyTrade env fifoOpts t) :
    ∃ report ctx₂, getTransactionTaxReport env conv
        { start, finish, strategy := .fifo } ctx history = .ok report ∧
      ctx₂.pollsLeft = none ∧
      report.taxes = (lookUpTrades env fifoOpts ctx₂
        (pricedTrades conv (getTrxs history start finish) ++
          carriedTrades conv trades)).saleTradesWithRealizedProfit := by
  have hsecond : ((getTrxs history start finish).map Trade.ofTrx ++
      (lookUpTrades env prevOpts ctx ((trxsForPrevPeriod history start).map
        Trade.ofTrx)).buyTradesWithUnrealizedProfit).map conv.convertTrade =
      pricedTrades conv (getTrxs history start finish) ++
        carriedTrades conv trades := by
    rw [hbuys, List.map_append, List.map_map]
    rfl
  generalize hunpriced : (((getTrxs history start finish).map Trade.ofTrx ++
    (lookUpTrades env prevOpts ctx ((trxsForPrevPeriod history start).map
      Trade.ofTrx)).buyTradesWithUnrealizedProfit).map
        (·.toTrx)).filter (fun trx => !trx.isPriced) = unpriced
  have hctx₂ := hconv unpriced
  obtain ⟨hexit₂, hrunCtx⟩ := lookUpTrades_completes isFifo_fifoOpts hctx₂ hready
  have hnever := LookUpCtx.hasInterrupted_of_never hctx₂
  have hopts : ({ start, finish, strategy := .fifo } :
      TaxReportParams).lookUpOpts = fifoOpts := rfl
  have hprevOpts : { fifoOpts with
      isBuyTradesWithUnrealizedProfitRequired := true
      isNotGainOrLossRequired := true } = prevOpts := rfl
  have hprev : (if 0 < start then getTrxs history 0 (start - 1) else []) =
      trxsForPrevPeriod history start := rfl
  refine ⟨⟨_, (conv.ctx ctx unpriced).delistedCcyMap.map (·.1)⟩,
    conv.ctx ctx unpriced, ?_, hctx₂, rfl⟩
  simp only [getTransactionTaxReport, List.isEmpty_iff, hempty, ↓reduceIte,
    hopts, hprevOpts, hprev, hexit, hprevCtx, hunpriced, hsecond, hexit₂,
    hrunCtx, hnever, Bool.false_eq_true]

end Split

/-- Period splitting under FIFO: wherever the period starts, the report has
for its sales the entries of one pass over the whole history. -/
theorem getTransactionTaxReport_eq_singlePass (env : TaxEnv)
    (conv : Conversion) (start finish : ℕ) (ctx : LookUpCtx)
    (history : List Trx) (hctx : ctx.pollsLeft = none)
    (hconv : ∀ ctx trxs, ctx.pollsLeft = none →
      (conv.ctx ctx trxs).pollsLeft = none)
    (hsorted : history.Pairwise fun newer older =>
      older.mtsCreate ≤ newer.mtsCreate)
    (hremapped : ∀ trx ∈ history, trx.Remapped env)
    (hcomplete : ∀ trx ∈ history, (conv.convert trx).Complete env) :
    ∃ report, getTransactionTaxReport env conv
        { start, finish, strategy := .fifo } ctx history = .ok report ∧
      report.taxes.filter (fun entry => entry.cost.isSome) =
        (lookUpTrades env fifoOpts ctx (pricedTrades conv
            (getTrxs history 0 finish))).saleTradesWithRealizedProfit.filter
          (TaxEntry.isSaleSince start) := by
  by_cases hempty : getTrxs history start finish = []
  · refine ⟨{}, by simp [getTransactionTaxReport, hempty], ?_⟩
    exact (singlePass_of_empty hctx hremapped hcomplete hempty).symm
  have hremapped' : ∀ trx ∈ trxsForPrevPeriod history start, trx.Remapped env :=
    fun trx h => hremapped trx (of_mem_trxsForPrevPeriod h).1
  obtain ⟨trades, hexit, hprevCtx, hbuys, htrades, hledger⟩ :=
    lookUpTrades_prev hctx hremapped'
  have hcurr : ∀ trx ∈ getTrxs history start finish,
      (conv.convert trx).Complete env :=
    fun trx h => hcomplete trx (mem_period.mp h).1
  have hleft : ∀ t ∈ trades, LeftOver env t := fun t h => (htrades t h).1
  have hleftPriced : ∀ t ∈ trades, (conv.convert t.toTrx).Complete env :=
    fun t h => hcomplete _ (of_mem_trxsForPrevPeriod (htrades t h).2).1
  have hready := fun t h => (readyTrade_of_carried conv hleft hleftPriced t h).1
  obtain ⟨report, ctx₂, hreport, hctx₂, htaxes⟩ :=
    getTransactionTaxReport_eq_second hempty (fun trxs => hconv ctx trxs hctx)
      hexit hprevCtx hbuys
      (List.forall_mem_append.mpr ⟨readyTrade_pricedTrades hcurr, hready⟩)
  refine ⟨report, hreport, ?_⟩
  obtain ⟨newest, hnewest⟩ := List.exists_mem_of_ne_nil _ hempty
  obtain ⟨-, hstart, hfinish⟩ := mem_period.mp hnewest
  have hwhole := getTrxs_append_trxsForPrevPeriod (hstart.trans hfinish) hsorted
  rw [htaxes, lookUpTrades_curr hctx₂ hcurr hleft hleftPriced, hledger, ← hwhole]
  symm
  apply singlePass_since hctx start _ hremapped'
  · intro trx h
    rw [hwhole] at h
    exact hcomplete trx (mem_period.mp h).1
  · exact fun trx h => (mem_period.mp h).2.1
  · exact fun trx h => (of_mem_trxsForPrevPeriod h).2

namespace PeriodSplitWitness

/-- Dollars are the only fiat money, and every public trade gives 5 dollars
for the first and 15 for the last currency. -/
def usdEnv : TaxEnv := ⟨["USD"], fun _ => ("", "")⟩

def conversion : Conversion :=
  ⟨fun _ => some 5, fun _ => some 15, fun ctx _ => ctx⟩

/-- Newest first: a bitcoin of two is sold after the other has been spent on
ethers. -/
def history : List Trx :=
  [{ symbol := "tBTCUSD", mtsCreate := 3, firstSymb := "BTC"
     lastSymb := "USD", execAmount := some (-1), execPrice := some 30
     firstSymbPriceUsd := some 30, lastSymbPriceUsd := some 1 },
   { symbol := "tETHBTC", mtsCreate := 2, firstSymb := "ETH"
     lastSymb := "BTC", execAmount := some 2, execPrice := some (1 / 2) },
   { symbol := "tBTCUSD", mtsCreate := 1, firstSymb := "BTC"
     lastSymb := "USD", execAmount := some 2, execPrice := some 10
     firstSymbPriceUsd := some 10, lastSymbPriceUsd := some 1 }]

theorem remapped : ∀ trx ∈ history, trx.Remapped usdEnv := by
  simp only [history, List.forall_mem_cons, List.not_mem_nil, false_implies,
    implies_true, and_true]
  refine ⟨?_, ?_, ?_⟩ <;>
    exact ⟨by decide, by decide, by decide, ⟨_, rfl, by norm_num⟩,
      ⟨_, rfl, by norm_num⟩, by decide⟩

theorem complete :
    ∀ trx ∈ history, (conversion.convert trx).Complete usdEnv := by
  simp only [history, List.forall_mem_cons, List.not_mem_nil, false_implies,
    implies_true, and_true]
  refine ⟨?_, ?_, ?_⟩ <;>
    exact ⟨by decide, by decide, ⟨_, rfl, by norm_num⟩,
      ⟨_, rfl, by norm_num⟩, rfl, rfl⟩

theorem getTransactionTaxReport_eq_singlePass_of_history :
    ∃ report, getTransactionTaxReport usdEnv conversion
        { start := 3, finish := 9, strategy := .fifo } {} history =
          .ok report ∧
      report.taxes.filter (fun entry => entry.cost.isSome) =
        [{ asset := "BTC", amount := some 1, mtsAcquired := some 1
           mtsSold := some 3, proceeds := some 30, cost := some 10
           gainOrLoss := some 20, type := .exchange }] := by
  obtain ⟨report, hreport, htaxes⟩ := getTransactionTaxReport_eq_singlePass
    usdEnv conversion 3 9 {} history rfl (fun _ _ h => h) (by decide)
    remapped complete
  exact ⟨report, hreport, htaxes.trans (by decide +kernel)⟩

end PeriodSplitWitness

end ReportsFramework
