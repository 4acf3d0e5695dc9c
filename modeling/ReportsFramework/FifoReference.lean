/-
The FIFO report against its reference.  The reference walks a history from its
oldest transaction on and keeps one queue of open lots for each asset; the
nested loops of `lookUpTrades` give the same entries.
-/
import ReportsFramework.FifoLedger

namespace ReportsFramework

open Trx LotQueue

/-- The currencies that change hands.  Fiat money that is paid or received for
the first currency of the pair is no asset of the report, and neither is a
taxable payment in it. -/
def Trx.fifoDeal (env : TaxEnv) (trx : Trx) : Deal String Trx ℚ :=
  let (first, last) := trx.symbPair env
  let isFiatPayment := trx.isTaxablePayment && env.isForexSymb first
  let firstAmount := |trx.amount|
  let lastAmount := |trx.amount * trx.price|
  if 0 < trx.amount then
    { sold := if env.isForexSymb last then none else some (last, lastAmount)
      bought := if isFiatPayment then none
        else some (first, ⟨trx, firstAmount⟩) }
  else
    { sold := some (first, firstAmount)
      bought := if env.isForexSymb last || isFiatPayment then none
        else some (last, ⟨trx, lastAmount⟩) }

/-- The USD price of the currency that a transaction brought in. -/
def Trx.fifoCostPriceUsd (trx : Trx) : ℚ :=
  (if 0 < trx.amount then trx.firstSymbPriceUsd
    else trx.lastSymbPriceUsd).getD 0

/-- The USD price of the currency that it gave away. -/
def Trx.fifoSalePriceUsd (trx : Trx) : ℚ :=
  (if 0 < trx.amount then trx.lastSymbPriceUsd
    else trx.firstSymbPriceUsd).getD 0

/-- The entry of a sale made by a trade, for the pieces of lots it drew. -/
def fifoSale (env : TaxEnv) (trx : Trx) (pieces : List TaxLot) :
    Option TaxEntry :=
  if trx.isTaxablePayment || trx.isAdditionalTrxMovements then none
  else (trx.fifoDeal env).sold.map fun (asset, amount) =>
    let proceeds := amount * trx.fifoSalePriceUsd
    let cost := value Trx.fifoCostPriceUsd pieces
    { asset
      amount := some amount
      mtsAcquired := mtsAcquired (pieces.map (·.tag.mtsCreate))
      mtsSold := some trx.mtsCreate
      proceeds := some proceeds
      cost := some cost
      gainOrLoss := some (proceeds - cost)
      type := getTrxTaxType trx }

/-- The reference, from a ledger on, over transactions in order of time. -/
def fifoSales (env : TaxEnv) (ledger : Ledger String Trx ℚ) :
    List Trx → List TaxEntry
  | [] => []
  | trx :: later =>
      (fifoSale env trx (ledger.pieces (trx.fifoDeal env))).toList ++
        fifoSales env (ledger.settle (trx.fifoDeal env)) later

variable {env : TaxEnv} {trx : Trx}

/-- The deal the look-up settles is the reference's, up to the symbols that
it writes back. -/
theorem deal_ofTrx (h : trx.Complete env) :
    (Trade.ofTrx trx).deal env =
      (trx.fifoDeal env).retag (Trx.withSymbs env) := by
  have hne := h.amount_ne_zero
  rcases lt_or_gt_of_ne hne with hneg | hpos
  · have hpos := not_lt.mpr hneg.le
    cases hlast : env.isForexSymb (trx.symbPair env).2 <;>
      cases hfirst : env.isForexSymb (trx.symbPair env).1 <;>
      cases hpayment : trx.isTaxablePayment <;>
      simp [Trade.deal, Trade.ofTrx, openLot?, sells, soldAsset, soldAmount,
        isNoLot, boughtAsset, boughtAmount, fifoDeal, Deal.retag, Lot.retag,
        hneg, hpos, hlast, hfirst, hpayment]
  · have hneg := not_lt.mpr hpos.le
    cases hlast : env.isForexSymb (trx.symbPair env).2 <;>
      cases hfirst : env.isForexSymb (trx.symbPair env).1 <;>
      cases hpayment : trx.isTaxablePayment <;>
      simp [Trade.deal, Trade.ofTrx, openLot?, sells, soldAsset, soldAmount,
        isNoLot, boughtAsset, boughtAmount, fifoDeal, Deal.retag, Lot.retag,
        hneg, hpos, hlast, hfirst, hpayment]

/-- The two entries of a sale are read off the same deal. -/
theorem fifoSale_eq (h : trx.Complete env) (pieces : List TaxLot) :
    fifoSale env trx pieces =
      dueSale env fifoOpts (Trade.ofTrx trx)
        (pieces.map (Lot.retag (Trx.withSymbs env))) := by
  have hcost : value (lotPriceUsd fifoOpts)
      (pieces.map (Lot.retag (Trx.withSymbs env))) =
        value Trx.fifoCostPriceUsd pieces := by
    rw [value_retag]
    rfl
  have hmts : (pieces.map (Lot.retag (Trx.withSymbs env))).map
      (·.tag.mtsCreate) = pieces.map (·.tag.mtsCreate) := by
    rw [List.map_map]
    rfl
  rcases lt_or_gt_of_ne h.amount_ne_zero with hneg | hpos
  · have hpos := not_lt.mpr hneg.le
    cases hpayment : trx.isTaxablePayment <;>
      cases hadditional : trx.isAdditionalTrxMovements <;>
      simp [fifoSale, fifoDeal, dueSale, Trade.isListedSale, Trade.ofTrx, sells,
        saleEntry, soldAsset, soldAmount, salePriceUsd, fifoOpts,
        fifoSalePriceUsd, hneg, hpos, hpayment, hadditional, hmts,
        ← hcost]
  · have hneg := not_lt.mpr hpos.le
    cases hlast : env.isForexSymb (trx.symbPair env).2 <;>
      cases hpayment : trx.isTaxablePayment <;>
      cases hadditional : trx.isAdditionalTrxMovements <;>
      simp [fifoSale, fifoDeal, dueSale, Trade.isListedSale, Trade.ofTrx, sells,
        saleEntry, soldAsset, soldAmount, salePriceUsd, fifoOpts,
        fifoSalePriceUsd, hneg, hpos, hlast, hpayment, hadditional, hmts,
        ← hcost]

theorem fifoSales_eq_dueSales (ledger : Ledger String Trx ℚ)
    (trxs : List Trx) (hcomplete : ∀ trx ∈ trxs, trx.Complete env) :
    fifoSales env ledger trxs =
      dueSales env fifoOpts (ledger.retag (Trx.withSymbs env))
        (trxs.map Trade.ofTrx) := by
  induction trxs generalizing ledger with
  | nil => rfl
  | cons trx later ih =>
      obtain ⟨htrx, hlater⟩ := List.forall_mem_cons.mp hcomplete
      simp only [fifoSales, List.map_cons, dueSales, deal_ofTrx htrx,
        Ledger.pieces_retag, Ledger.settle_retag, fifoSale_eq htrx,
        ih _ hlater]

/-- FIFO against its reference: for complete transactions, newest first in the
array, the entries of the sales made by trades are those of the reference. -/
theorem lookUpTrades_eq_fifoSales (env : TaxEnv)
    (delistedCcyMap : List (String × ℕ)) (trxs : List Trx)
    (hcomplete : ∀ trx ∈ trxs, trx.Complete env) :
    (lookUpTrades env
        { isBackIterativeSaleLookUp := true, isBackIterativeBuyLookUp := true }
        { delistedCcyMap }
        (trxs.map Trade.ofTrx)).saleTradesWithRealizedProfit.filter
          (fun entry => entry.cost.isSome) =
      (fifoSales env Ledger.empty trxs.reverse).reverse := by
  have hready : ∀ t ∈ trxs.map Trade.ofTrx, ReadyTrade env fifoOpts t := by
    simp only [List.mem_map, forall_exists_index, and_imp,
      forall_apply_eq_imp_iff₂]
    exact fun trx hmem => (hcomplete trx hmem).readyTrade fifoOpts
  have hentries := lookUpTrades_saleEntries isFifo_fifoOpts rfl
    (show ({ delistedCcyMap } : LookUpCtx).pollsLeft = none from rfl)
    (trxs.map Trade.ofTrx) hready
  refine hentries.trans ?_
  rw [fifoSales_eq_dueSales _ _ fun trx hmem =>
    hcomplete trx (List.mem_reverse.mp hmem), ← List.map_reverse]
  rfl

namespace FifoWitness

/-- Dollars are the only fiat money; every transaction carries its symbols. -/
def usdEnv : TaxEnv := ⟨["USD"], fun _ => ("", "")⟩

/-- Newest first: 3 ETH are sold for dollars, 2 of them were bought with one
of two bitcoins, and a staking payment had brought the first. -/
def trxs : List Trx :=
  [{ symbol := "tETHUSD", mtsCreate := 4, firstSymb := "ETH"
     lastSymb := "USD", execAmount := some (-3), execPrice := some 30
     firstSymbPriceUsd := some 30, lastSymbPriceUsd := some 1 },
   { symbol := "tETHBTC", mtsCreate := 3, firstSymb := "ETH"
     lastSymb := "BTC", execAmount := some 2, execPrice := some (1 / 2)
     firstSymbPriceUsd := some 20, lastSymbPriceUsd := some 40 },
   { symbol := "tETHUSD", mtsCreate := 2, firstSymb := "ETH"
     lastSymb := "USD", execAmount := some (1 / 2), execPrice := some 16
     firstSymbPriceUsd := some 16, lastSymbPriceUsd := some 1
     isAdditionalTrxMovements := true, isTaxablePayment := true
     isStakingPayments := true },
   { symbol := "tBTCUSD", mtsCreate := 1, firstSymb := "BTC"
     lastSymb := "USD", execAmount := some 2, execPrice := some 10
     firstSymbPriceUsd := some 10, lastSymbPriceUsd := some 1 }]

theorem complete : ∀ trx ∈ trxs, trx.Complete usdEnv := by
  simp only [trxs, List.forall_mem_cons, List.not_mem_nil, false_implies,
    implies_true, and_true]
  refine ⟨?_, ?_, ?_, ?_⟩ <;>
    exact ⟨by decide, by decide, ⟨_, rfl, by norm_num⟩,
      ⟨_, rfl, by norm_num⟩, rfl, rfl⟩

theorem lookUpTrades_eq_fifoSales_of_trxs :
    (lookUpTrades usdEnv
        { isBackIterativeSaleLookUp := true, isBackIterativeBuyLookUp := true }
        {} (trxs.map Trade.ofTrx)).saleTradesWithRealizedProfit.filter
          (fun entry => entry.cost.isSome) =
      [{ asset := "ETH", amount := some 3, mtsAcquired := some 2
         mtsSold := some 4, proceeds := some 90, cost := some 48
         gainOrLoss := some 42, type := .exchange },
       { asset := "BTC", amount := some 1, mtsAcquired := some 1
         mtsSold := some 3, proceeds := some 40, cost := some 10
         gainOrLoss := some 30, type := .exchange }] :=
  (lookUpTrades_eq_fifoSales usdEnv [] trxs complete).trans (by decide +kernel)

end FifoWitness

end ReportsFramework
