/-
The sale loop of `lookUpTrades` under FIFO, where both loops start from the
oldest trade, is a ledger that settles one deal for each trade.
-/
import ReportsFramework.TaxLotQueues

namespace ReportsFramework

open Trx LotQueue

/-- The open lots of a list that stands newest first. -/
def openLots (env : TaxEnv) (trades : List Trade) : Ledger String Trx ℚ :=
  fun asset => trades.reverse.filterMap (openLot? env asset)

/-- What a trade does to the ledger.  A trade carried over from the previous
period only brings what is left of its lot. -/
def Trade.deal (env : TaxEnv) (trade : Trade) : Deal String Trx ℚ where
  sold :=
    if trade.sells env && !trade.isBuyTradesWithUnrealizedProfitForPrevPeriod
    then some (trade.soldAsset env, trade.soldAmount) else none
  bought :=
    (openLot? env (trade.boughtAsset env) trade).map
      fun lot => (trade.boughtAsset env, lot)

/-- A trade the sale loop has yet to come to: nothing of it is sold, unless it
was carried over, when its sale is passed over anyway. -/
structure ReadyTrade (env : TaxEnv) (opts : LookUpOpts) (trade : Trade) :
    Prop where
  lot : ReadyLot env opts trade
  noPriceUsd : trade.noPriceUsd = false
  sale : trade.isBuyTradesWithUnrealizedProfitForPrevPeriod = false →
    trade.saleFilledAmount = 0 ∧ trade.isSaleTrxHistFilled = false ∧
      trade.costForSaleTrxUsd = 0 ∧ trade.buyTrxsForRealizedProfit = []

/-- A sale that the report lists as such. -/
def Trade.isListedSale (env : TaxEnv) (trade : Trade) : Bool :=
  trade.sells env && !trade.isBuyTradesWithUnrealizedProfitForPrevPeriod &&
    !trade.isTaxablePayment && !trade.isAdditionalTrxMovements

/-- The entry for a sale that took `pieces`. -/
def saleEntry (env : TaxEnv) (opts : LookUpOpts) (trx : Trx)
    (pieces : List TaxLot) : TaxEntry :=
  let proceeds := trx.soldAmount * (trx.salePriceUsd opts).getD 0
  let cost := value (lotPriceUsd opts) pieces
  { asset := trx.soldAsset env
    amount := some trx.soldAmount
    mtsAcquired := mtsAcquired (pieces.map (·.tag.mtsCreate))
    mtsSold := some trx.mtsCreate
    proceeds := some proceeds
    cost := some cost
    gainOrLoss := some (proceeds - cost)
    type := getTrxTaxType trx }

/-- The entry of a trade, when it is one for a sale. -/
def pushedSale (opts : LookUpOpts) (trade : Trade) : Option TaxEntry :=
  (pushedEntry opts trade).filter fun entry => entry.cost.isSome

/-- The options under which a look-up is first in, first out and free of
fees. -/
structure IsFifo (opts : LookUpOpts) : Prop where
  sales : opts.isBackIterativeSaleLookUp = true
  lots : opts.isBackIterativeBuyLookUp = true
  fees : opts.shouldFeesBeDeducted = false

/-- The options of a FIFO report without fees. -/
def fifoOpts : LookUpOpts :=
  { isBackIterativeSaleLookUp := true, isBackIterativeBuyLookUp := true }

theorem isFifo_fifoOpts : IsFifo fifoOpts := ⟨rfl, rfl, rfl⟩

/-- A trade that the loops have been at. -/
structure Seen (env : TaxEnv) (trade trade' : Trade) : Prop where
  trx : SameTrx env trade.toTrx trade'.toTrx
  named : trade.toTrx.withSymbs env = trade.toTrx →
    trade'.toTrx = trade.toTrx
  flag : trade'.isBuyTradesWithUnrealizedProfitForPrevPeriod =
    trade.isBuyTradesWithUnrealizedProfitForPrevPeriod
  isBuyTrx : trade.buys env = true → trade'.isBuyTrx = true
  noPriceUsd : trade'.noPriceUsd = false

/-- The entry that a trade is due for the pieces it has sold. -/
def dueSale (env : TaxEnv) (opts : LookUpOpts) (trade : Trade)
    (pieces : List TaxLot) : Option TaxEntry :=
  if trade.isListedSale env then some (saleEntry env opts trade.toTrx pieces)
  else none

/-- A trade has been through its turn of the sale loop, and has sold
`pieces`. -/
structure Settled (env : TaxEnv) (opts : LookUpOpts) (trade : Trade)
    (pieces : List TaxLot) (trade' : Trade) : Prop extends
    Seen env trade trade' where
  entry : opts.isBuyTradesWithUnrealizedProfitRequired = false →
    pushedSale opts trade' = dueSale env opts trade pieces

variable {env : TaxEnv} {opts : LookUpOpts} {ctx : LookUpCtx}
variable {trade : Trade} {older : List Trade}

theorem pushedSale_congr {trade' : Trade} (h : SameLot env trade trade') :
    pushedSale opts trade' = pushedSale opts trade := by
  have hpayment : trade'.isTaxablePayment = trade.isTaxablePayment :=
    (h.trx.congr (·.isTaxablePayment) fun _ => rfl).symm
  have hadditional :
      trade'.isAdditionalTrxMovements = trade.isAdditionalTrxMovements :=
    (h.trx.congr (·.isAdditionalTrxMovements) fun _ => rfl).symm
  have htype : getTrxTaxType trade'.toTrx = getTrxTaxType trade.toTrx :=
    (h.trx.congr getTrxTaxType fun _ => rfl).symm
  simp only [pushedSale, pushedEntry, h.saleBook, h.flag, hpayment, hadditional,
    htype]
  split
  · rfl
  split
  · rfl
  · rfl

/-- Later sales may draw from a trade's lot, not change its sale. -/
theorem Seen.later {trade' trade'' : Trade} (h : Seen env trade trade')
    (hlater : SameLot env trade' trade'') : Seen env trade trade'' where
  trx := h.trx.trans hlater.trx
  named := fun hnamed => by
    have hsame := h.named hnamed
    exact (hlater.named (hsame ▸ hnamed)).trans hsame
  flag := hlater.flag.trans h.flag
  isBuyTrx := fun hbuys => hlater.isBuyTrx (h.isBuyTrx hbuys)
  noPriceUsd := hlater.saleBook ▸ h.noPriceUsd

theorem filterMap_pushedSale_later {older' : List Trade}
    (hlater : List.Forall₂ (SameLot env) older older') :
    older'.filterMap (pushedSale opts) = older.filterMap (pushedSale opts) := by
  induction hlater with
  | nil => rfl
  | cons hhead _ ih =>
      rw [List.filterMap_cons, List.filterMap_cons, pushedSale_congr hhead, ih]

theorem openLots_cons (trade : Trade) (older : List Trade) (asset : String) :
    openLots env (trade :: older) asset =
      openLots env older asset ++ (openLot? env asset trade).toList := by
  simp only [openLots, List.reverse_cons, List.filterMap_append]
  cases hopen : openLot? env asset trade <;> simp [hopen]

theorem lotOf_deal (trade : Trade) (asset : String) :
    (trade.deal env).lotOf asset = (openLot? env asset trade).toList := by
  by_cases hasset : trade.boughtAsset env = asset
  · subst hasset
    cases hopen : openLot? env (trade.boughtAsset env) trade <;>
      simp [Deal.lotOf, Trade.deal, hopen]
  · rw [openLot?_of_ne (Ne.symm hasset)]
    cases hopen : openLot? env (trade.boughtAsset env) trade <;>
      simp [Deal.lotOf, Trade.deal, hopen, hasset]

/-- A trade that lots are looked up for, without fees. -/
def Trade.asOpened (env : TaxEnv) (trade : Trade) : Trade :=
  (trade.asSale env).charged 0

theorem openLot?_asSale (asset : String) :
    openLot? env asset (trade.asSale env) = openLot? env asset trade :=
  openLot?_congr asset (sameTrx_withSymbs env trade.toTrx) rfl rfl

theorem openSale_of_passed (htrade : trade.toTrx.Ready env opts)
    (hsold : (trade.deal env).sold = none) :
    openSale env opts ctx trade = (trade.asSale env, ctx, .skipped) := by
  have hskip : (!trade.sells env ||
      trade.isBuyTradesWithUnrealizedProfitForPrevPeriod) = true := by
    simpa [Trade.deal, Bool.or_eq_true, imp_iff_not_or] using hsold
  simp only [openSale_eq, htrade.can, hskip, Bool.not_true, Bool.false_eq_true,
    ↓reduceIte]

theorem openSale_of_sold (ctx : LookUpCtx) (htrade : trade.toTrx.Ready env opts)
    (hfees : opts.shouldFeesBeDeducted = false) {asset : String} {amount : ℚ}
    (hsold : (trade.deal env).sold = some (asset, amount)) :
    asset = trade.soldAsset env ∧ amount = trade.soldAmount ∧
      trade.sells env = true ∧
      trade.isBuyTradesWithUnrealizedProfitForPrevPeriod = false ∧
      openSale env opts ctx trade =
        (trade.asOpened env, ctx,
          .opened ⟨asset, amount, (trade.salePriceUsd opts).getD 0⟩) := by
  obtain ⟨priceUsd, hprice⟩ := Option.isSome_iff_exists.mp htrade.salePrice
  simp only [Trade.deal, Option.ite_none_right_eq_some, Bool.and_eq_true,
    Bool.not_eq_true', Option.some.injEq, Prod.mk.injEq] at hsold
  obtain ⟨⟨hsells, hflag⟩, rfl, rfl⟩ := hsold
  refine ⟨rfl, rfl, hsells, hflag, ?_⟩
  simp [openSale_eq, htrade.can, hsells, hflag, htrade.symbs, hprice,
    getTrxFeeUsd_of_not_deducted hfees, Trade.asOpened]

/-- What the final loop reads off a sale. -/
theorem pushedSale_eq (hreq : opts.isBuyTradesWithUnrealizedProfitRequired = false)
    (hprice : trade.noPriceUsd = false) :
    pushedSale opts trade =
      if trade.isSaleTrx && !trade.isBuyTradesWithUnrealizedProfitForPrevPeriod &&
          !trade.isTaxablePayment && !trade.isAdditionalTrxMovements then
        some {
          asset := trade.saleAsset.getD ""
          amount := some (trade.saleAmount.getD 0)
          mtsAcquired := trade.mtsAcquiredForSaleTrx
          mtsSold := trade.mtsSoldForSaleTrx
          proceeds := some (trade.proceedsForSaleTrxUsd.getD 0)
          cost := some trade.costForSaleTrxUsd
          gainOrLoss := some (trade.gainOrLossUsd.getD 0)
          type := getTrxTaxType trade.toTrx }
      else none := by
  simp only [pushedSale, pushedEntry, hreq, hprice, Bool.false_or]
  cases trade.isBuyTradesWithUnrealizedProfitForPrevPeriod <;>
    cases trade.isTaxablePayment <;> cases trade.isSaleTrx <;>
    cases trade.isAdditionalTrxMovements <;> simp

theorem settled_of_passed (htrade : ReadyTrade env opts trade)
    (hsold : (trade.deal env).sold = none) :
    Settled env opts trade [] (trade.asSale env) where
  trx := sameTrx_withSymbs env trade.toTrx
  named := id
  flag := rfl
  isBuyTrx := id
  noPriceUsd := htrade.noPriceUsd
  entry := by
    intro hreq
    have hpassed : (trade.sells env &&
        !trade.isBuyTradesWithUnrealizedProfitForPrevPeriod) = false := by
      simpa [Trade.deal] using hsold
    have hno : (trade.asSale env).noPriceUsd = false := htrade.noPriceUsd
    rw [pushedSale_eq hreq hno]
    simp [dueSale, Trade.isListedSale, Trade.asSale, Trade.withSymbs,
      hpassed]

theorem settled_of_taken (htrade : ReadyTrade env opts trade)
    {asset : String} {amount : ℚ} {pieces : List TaxLot} {trade' : Trade}
    (hasset : asset = trade.soldAsset env) (hamount : amount = trade.soldAmount)
    (hsells : trade.sells env = true)
    (hflag : trade.isBuyTradesWithUnrealizedProfitForPrevPeriod = false)
    (htakes : Takes opts (trade.asOpened env) pieces trade') :
    Settled env opts trade pieces
      (closeSale ⟨asset, amount, (trade.salePriceUsd opts).getD 0⟩ trade') where
  trx := by
    show SameTrx env trade.toTrx trade'.toTrx
    rw [htakes.trx]
    exact sameTrx_withSymbs env trade.toTrx
  named := fun hnamed => htakes.trx.trans hnamed
  flag := by
    show trade'.isBuyTradesWithUnrealizedProfitForPrevPeriod = _
    rw [htakes.buyBook]
    rfl
  isBuyTrx := by
    show _ → trade'.isBuyTrx = true
    rw [htakes.buyBook]
    exact id
  noPriceUsd := htakes.noPriceUsd.trans htrade.noPriceUsd
  entry := by
    intro hreq
    obtain ⟨-, -, hcost, hlots⟩ := htrade.sale hflag
    have htrx : trade'.toTrx = trade.toTrx.withSymbs env := htakes.trx
    have hbook : trade'.toBuyBook = (trade.asSale env).toBuyBook :=
      htakes.buyBook
    have hsale : trade'.isSaleTrx = true := htakes.isSaleTrx.trans hsells
    have hno : trade'.noPriceUsd = false :=
      htakes.noPriceUsd.trans htrade.noPriceUsd
    have hpaid : trade'.costForSaleTrxUsd =
        value (lotPriceUsd opts) pieces := by
      rw [htakes.cost, show (trade.asOpened env).costForSaleTrxUsd = 0 from hcost,
        zero_add]
    have htaken : trade'.buyTrxsForRealizedProfit =
        pieces.map (·.tag.mtsCreate) := by
      rw [htakes.lots,
        show (trade.asOpened env).buyTrxsForRealizedProfit = [] from hlots,
        List.nil_append]
    have hfee : trade'.cumulativeTrxFeesUsd = 0 := htakes.fees
    have hclosed : (closeSale ⟨asset, amount,
        (trade.salePriceUsd opts).getD 0⟩ trade').noPriceUsd = false := hno
    rw [pushedSale_eq hreq hclosed]
    simp only [closeSale, hsale, hbook, Trade.asSale, Trade.withSymbs, hflag,
      htrx, hpaid, htaken, hfee, dueSale, Trade.isListedSale, hsells, add_zero,
      Option.getD_some, saleEntry, hasset, hamount]
    rfl

theorem ReadyLot.of_settled {trade' : Trade} (h : ReadyLot env opts trade)
    (htrx : SameTrx env trade.toTrx trade'.toTrx)
    (hfilled : trade'.buyFilledAmount = trade.buyFilledAmount)
    (hhist : trade'.isBuyTrxHistFilled = trade.isBuyTrxHistFilled)
    (holder : ∀ lot ∈ older, ReadyLot env opts lot) :
    ∀ lot ∈ trade' :: older, ReadyLot env opts lot :=
  List.forall_mem_cons.mpr ⟨h.congr htrx hfilled hhist, holder⟩

/-- One turn of the sale loop settles the deal of its trade. -/
theorem lookUpSale_settles (hfifo : IsFifo opts) (hctx : ctx.pollsLeft = none)
    (htrade : ReadyTrade env opts trade)
    (holder : ∀ lot ∈ older, ReadyLot env opts lot) :
    ∃ trade' older', lookUpSale env opts ctx trade older =
        { trade := trade', lots := older', ctx } ∧
      List.Forall₂ (SameLot env) older older' ∧
      (∀ lot ∈ trade' :: older', ReadyLot env opts lot) ∧
      openLots env (trade' :: older') =
        (openLots env older).settle (trade.deal env) ∧
      Settled env opts trade ((openLots env older).pieces (trade.deal env))
        trade' := by
  have hsymbs := sameTrx_withSymbs env trade.toTrx
  simp only [lookUpSale, LookUpCtx.hasInterrupted_of_never hctx,
    LookUpCtx.polled_of_never hctx, Bool.false_eq_true, ↓reduceIte]
  cases hsold : (trade.deal env).sold with
  | none =>
      rw [openSale_of_passed htrade.lot.trx hsold]
      refine ⟨trade.asSale env, older, rfl, List.forall₂_same.mpr fun lot _ =>
        SameLot.refl lot, ?_, ?_, ?_⟩
      · exact htrade.lot.of_settled hsymbs rfl rfl holder
      · funext asset
        rw [openLots_cons, Ledger.settle, lotOf_deal, Ledger.sell, hsold,
          openLot?_asSale]
      · rw [Ledger.pieces, hsold]
        exact settled_of_passed htrade hsold
  | some sold =>
      obtain ⟨asset, amount⟩ := sold
      obtain ⟨hasset, hamount, hsells, hflag, hopen⟩ :=
        openSale_of_sold ctx htrade.lot.trx hfifo.fees hsold
      obtain ⟨hfilled, hhist, -, -⟩ := htrade.sale hflag
      have hpos : 0 < amount := hamount ▸ htrade.lot.trx.sold_pos hsells
      have hamount₁ : (trade.asOpened env).saleFilledAmount = 0 := hfilled
      have hopen₁ : (trade.asOpened env).isSaleTrxHistFilled = false := hhist
      obtain ⟨trade', lots', hscan, hdraws⟩ := lookUpLots_draws
        ⟨asset, amount, (trade.salePriceUsd opts).getD 0⟩ (trade.asOpened env)
        hctx hfifo.fees older.reverse (by simpa using holder)
        (by simp [hopen₁, hamount₁, hpos])
      have htakes := hdraws.takes
      have hqueue := hdraws.queue
      simp only [hamount₁, sub_zero] at htakes hqueue
      have hfilled' : trade'.buyFilledAmount = trade.buyFilledAmount := by
        rw [htakes.buyBook]
        rfl
      have hhist' : trade'.isBuyTrxHistFilled = trade.isBuyTrxHistFilled := by
        rw [htakes.buyBook]
        rfl
      have hsettled := settled_of_taken htrade hasset hamount hsells hflag
        htakes
      refine ⟨closeSale ⟨asset, amount, (trade.salePriceUsd opts).getD 0⟩
        trade', lots'.reverse, ?_, ?_, ?_, ?_, ?_⟩
      · simp [buyLookUpOrder, hfifo.lots, hopen, hscan]
      · simpa using List.rel_reverse hdraws.same
      · exact htrade.lot.of_settled hsettled.trx hfilled' hhist'
          (by simpa using hdraws.ready)
      · funext other
        have hlast : openLot? env other (closeSale ⟨asset, amount,
            (trade.salePriceUsd opts).getD 0⟩ trade') =
              openLot? env other trade :=
          openLot?_congr other hsettled.trx hfilled' hhist'
        rw [openLots_cons, hlast, Ledger.settle, lotOf_deal, Ledger.sell, hsold]
        congr 1
        simp only [openLots, List.reverse_reverse]
        by_cases hother : other = asset
        · subst hother
          rw [Function.update_self, hqueue]
        · rw [Function.update_of_ne hother]
          exact hdraws.others other hother
      · rw [Ledger.pieces, hsold]
        exact hsettled

/-- The entries due for trades in order of time, from a ledger on. -/
def dueSales (env : TaxEnv) (opts : LookUpOpts)
    (ledger : Ledger String Trx ℚ) : List Trade → List TaxEntry
  | [] => []
  | trade :: later =>
      (dueSale env opts trade (ledger.pieces (trade.deal env))).toList ++
        dueSales env opts (ledger.settle (trade.deal env)) later

theorem dueSales_append (ledger : Ledger String Trx ℚ)
    (first second : List Trade) :
    dueSales env opts ledger (first ++ second) =
      dueSales env opts ledger first ++
        dueSales env opts (ledger.run (first.map (Trade.deal env)))
          second := by
  induction first generalizing ledger with
  | nil => rfl
  | cons trade first ih =>
      simp only [List.cons_append, dueSales, ih, List.append_assoc]
      rfl

/-- The sale loop is a run of the ledger: the open lots it leaves are the
ledger's, and the entries it leads to are those due. -/
theorem lookUpSalesBack_settles (hfifo : IsFifo opts)
    (hctx : ctx.pollsLeft = none) (trades : List Trade)
    (hready : ∀ t ∈ trades, ReadyTrade env opts t) :
    ∃ trades', lookUpSalesBack env opts ctx trades =
        { trades := trades', ctx } ∧
      (∀ lot ∈ trades', ReadyLot env opts lot) ∧
      List.Forall₂ (Seen env) trades trades' ∧
      openLots env trades' =
        Ledger.empty.run (trades.reverse.map (Trade.deal env)) ∧
      (opts.isBuyTradesWithUnrealizedProfitRequired = false →
        trades'.filterMap (pushedSale opts) =
          (dueSales env opts Ledger.empty trades.reverse).reverse) := by
  induction trades with
  | nil => exact ⟨[], rfl, by simp, .nil, rfl, fun _ => rfl⟩
  | cons trade older ih =>
      obtain ⟨htrade, holder⟩ := List.forall_mem_cons.mp hready
      obtain ⟨older₁, hrun, hlots, hseen, hledger, hentries⟩ := ih holder
      obtain ⟨trade', older₂, hturn, hsame, hlots', hledger', hsettled⟩ :=
        lookUpSale_settles hfifo hctx htrade hlots
      refine ⟨trade' :: older₂, by simp [lookUpSalesBack, hrun, hturn], hlots',
        ?_, ?_, fun hreq => ?_⟩
      · exact .cons hsettled.toSeen
          (forall₂_trans hseen hsame fun _ _ _ => Seen.later)
      · rw [hledger', hledger, List.reverse_cons, List.map_append,
          Ledger.run_append]
        rfl
      · rw [List.reverse_cons, dueSales_append, List.reverse_append,
          ← hentries hreq, ← hledger, List.filterMap_cons,
          hsettled.entry hreq, filterMap_pushedSale_later hsame]
        simp only [dueSales, List.append_nil]
        cases dueSale env opts trade
          ((openLots env older₁).pieces (trade.deal env)) <;> rfl

/-- The report of a FIFO look-up lists the sales as the ledger settles
them. -/
theorem lookUpTrades_saleEntries (hfifo : IsFifo opts)
    (hreq : opts.isBuyTradesWithUnrealizedProfitRequired = false)
    (hctx : ctx.pollsLeft = none) (trades : List Trade)
    (hready : ∀ t ∈ trades, ReadyTrade env opts t) :
    (lookUpTrades env opts ctx trades).saleTradesWithRealizedProfit.filter
        (fun entry => entry.cost.isSome) =
      (dueSales env opts Ledger.empty trades.reverse).reverse := by
  obtain ⟨trades', hrun, -, -, -, hentries⟩ :=
    lookUpSalesBack_settles hfifo hctx trades hready
  rw [← hentries hreq]
  simp only [lookUpTrades, lookUpSales, hfifo.sales, ↓reduceIte, hrun]
  rw [List.filter_filterMap]
  rfl

/-- A transaction with amounts, prices and symbols, none of them missing or
zero. -/
structure Trx.Complete (env : TaxEnv) (trx : Trx) : Prop where
  symbol : trx.symbol ≠ ""
  symbs : (trx.symbPair env).1 ≠ "" ∧ (trx.symbPair env).2 ≠ ""
  execAmount : ∃ amount, trx.execAmount = some amount ∧ amount ≠ 0
  execPrice : ∃ price, trx.execPrice = some price ∧ price ≠ 0
  firstSymbPriceUsd : trx.firstSymbPriceUsd.isSome = true
  lastSymbPriceUsd : trx.lastSymbPriceUsd.isSome = true

section Complete

variable {trx : Trx}

theorem Trx.Complete.amount_ne_zero (h : trx.Complete env) :
    trx.amount ≠ 0 := by
  obtain ⟨amount, hamount, hne⟩ := h.execAmount
  simpa [Trx.amount, hamount] using hne

theorem Trx.Complete.ready (h : trx.Complete env) (opts : LookUpOpts) :
    trx.Ready env opts := by
  obtain ⟨amount, hamount, hne⟩ := h.execAmount
  obtain ⟨price, hprice, hpriceNe⟩ := h.execPrice
  have hquote : trx.amount * trx.price ≠ 0 := by
    simp [Trx.amount, Trx.price, hamount, hprice, hne, hpriceNe]
  refine ⟨?_, ?_, ?_, ?_, fun _ => ?_, fun _ => ?_⟩
  · simp [canBeLookedUp, h.symbol, hamount, hprice, hne, hpriceNe, Trx.amount,
      Trx.price]
  · simp [symbError?, h.symbs]
  · unfold salePriceUsd
    split_ifs <;> simp [h.firstSymbPriceUsd, h.lastSymbPriceUsd]
  · unfold buyPriceUsd
    split_ifs <;> simp [h.firstSymbPriceUsd, h.lastSymbPriceUsd]
  · unfold soldAmount
    split_ifs
    · exact abs_pos.mpr h.amount_ne_zero
    · exact abs_pos.mpr hquote
  · unfold boughtAmount
    split_ifs
    · exact abs_pos.mpr h.amount_ne_zero
    · exact abs_pos.mpr hquote

theorem Trx.Complete.readyTrade (h : trx.Complete env) (opts : LookUpOpts) :
    ReadyTrade env opts (Trade.ofTrx trx) := by
  refine ⟨⟨h.ready opts, fun hno => ?_⟩, rfl, fun _ => ⟨rfl, rfl, rfl, rfl⟩⟩
  have hpos := (h.ready opts).bought_pos hno
  simpa [Trade.ofTrx] using hpos

end Complete

end ReportsFramework
