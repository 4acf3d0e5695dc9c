/-
The numbers of the report.  A sale without a price is left out of it; a payment without one
is not, since the loops pass it over before they come to its price.
-/
import ReportsFramework.AcquisitionDate
import ReportsFramework.Causality
import ReportsFramework.TrxPricing

namespace ReportsFramework

open Trx

section Reportable

/-- What the remap and the conversion make sure of.  The `execPrice` of a movement is its
price, and 0 without one. -/
structure Trx.Reportable (trx : Trx) : Prop where
  execAmount : trx.execAmount.isSome = true
  execPrice : trx.execPrice.isSome = true
  payment : trx.isTaxablePayment = true → trx.isAdditionalTrxMovements = true
  type : trx.isTaxablePayment = true ↔ getTrxTaxType trx ≠ .exchange
  lastSymb : trx.isAdditionalTrxMovements = true → trx.lastSymb = "USD"
  price : trx.isAdditionalTrxMovements = true →
    trx.execPrice = some (trx.firstSymbPriceUsd.getD 0)

variable {env : TaxEnv}

/-- What comes from a trade is no payment. -/
theorem Trx.Reportable.of_trade {trx : Trx} (hexecAmount : trx.execAmount.isSome = true)
    (hexecPrice : trx.execPrice.isSome = true) (hpayment : trx.isTaxablePayment = false)
    (hmovement : trx.isAdditionalTrxMovements = false) (htype : getTrxTaxType trx = .exchange) :
    trx.Reportable where
  execAmount := hexecAmount
  execPrice := hexecPrice
  payment := by simp [hpayment]
  type := by simp [htype, hpayment]
  lastSymb := by simp [hmovement]
  price := by simp [hmovement]

theorem remapTrade_reportable {row : TradeRow} {trx : ReportTrx}
    (h : (remapTrade env row).trx? = some trx) : trx.toTrx.Reportable := by
  unfold remapTrade at h
  split at h
  · split at h
    · cases h
    · dsimp only at h
      split at h
      · cases h
        exact .of_trade rfl rfl rfl rfl rfl
      · split at h
        · cases h
          exact .of_trade rfl rfl rfl rfl rfl
        · cases h
          exact .of_trade rfl rfl rfl rfl rfl
  · cases h

theorem MovementRow.trx_reportable (row : MovementRow) (mtsUpdated : ℕ) (amount : ℚ) :
    (row.trx mtsUpdated amount).toTrx.Reportable where
  execAmount := rfl
  execPrice := rfl
  payment := fun _ => rfl
  type := by
    simp only [MovementRow.trx, MovementRow.isTaxablePayment, getTrxTaxType]
    grind
  lastSymb := fun _ => rfl
  price := fun _ => rfl

theorem ReportTrx.atPrice_reportable {trx : ReportTrx} (h : trx.toTrx.Reportable) (price : ℚ) :
    (trx.atPrice price).toTrx.Reportable :=
  ⟨h.execAmount, rfl, h.payment, h.type, h.lastSymb, fun _ => rfl⟩

theorem remapMovement_reportable {row : MovementRow} {trx : ReportTrx}
    (h : (remapMovement env row).trx? = some trx) : trx.toTrx.Reportable := by
  unfold remapMovement at h
  split at h
  next mtsUpdated amount _ _ =>
    have htrx := row.trx_reportable mtsUpdated amount
    split at h
    · cases h
    · dsimp only at h
      split at h
      · cases h
        exact ReportTrx.atPrice_reportable htrx 1
      · split at h
        · cases h
          exact ReportTrx.atPrice_reportable htrx _
        · cases h
          exact htrx
  · cases h

theorem ReportTrx.calcPrices_reportable {trx : ReportTrx} (h : trx.toTrx.Reportable)
    {convPricePropName : PricePropName} (price : ℚ)
    (hconv : trx.isAdditionalTrxMovements = true → convPricePropName = .firstSymbPriceUsd) :
    (trx.calcPrices convPricePropName price).toTrx.Reportable := by
  have hexecPrice :
      (if trx.isAdditionalTrxMovements then some price else trx.execPrice).isSome = true := by
    split
    · rfl
    · exact h.execPrice
  unfold ReportTrx.calcPrices
  dsimp only
  cases convPricePropName with
  | firstSymbPriceUsd =>
    dsimp only
    split <;>
      exact ⟨h.execAmount, hexecPrice, h.payment, h.type, h.lastSymb, fun hmov => if_pos hmov⟩
  | lastSymbPriceUsd =>
    have htrade : ∀ {p : Prop}, trx.isAdditionalTrxMovements = true → p :=
      fun hmov => nomatch hconv hmov
    dsimp only
    split <;> exact ⟨h.execAmount, hexecPrice, h.payment, h.type, h.lastSymb, htrade⟩

/-- A calculator of a transaction keeps it reportable. -/
theorem calcPrice_reportable {trx trx' : ReportTrx} (h : trx.toTrx.Reportable) {symb : String}
    {i : ℕ} {calculator : TrxPriceCalculator}
    (hcalculator : (symb, calculator) ∈ ccyCalculators env trx i)
    {pubTradePrice triangulationPrice : Option ℚ}
    (hcalc : calculator.calcPrice pubTradePrice triangulationPrice trx = .ok trx') :
    trx'.toTrx.Reportable := by
  have hconv : trx.isAdditionalTrxMovements = true →
      calculator.convPricePropName = .firstSymbPriceUsd :=
    fun hmov => convPricePropName_of_usd (h.lastSymb hmov) hcalculator
  unfold TrxPriceCalculator.calcPrice at hcalc
  split at hcalc
  · cases hcalc
  · split at hcalc
    · cases hcalc
      exact h
    · split at hcalc
      · cases hcalc
      · cases hcalc
        exact ReportTrx.calcPrices_reportable h _ hconv
    · cases hcalc
      exact ReportTrx.calcPrices_reportable h _ hconv

/-- A transaction that a remap has left, with the prices that the conversion has set so far. -/
inductive ReportTrx.FromSource (env : TaxEnv) : ReportTrx → Prop
  | trade {row : TradeRow} {trx : ReportTrx} (h : (remapTrade env row).trx? = some trx) :
      FromSource env trx
  | movement {row : MovementRow} {trx : ReportTrx} (h : (remapMovement env row).trx? = some trx) :
      FromSource env trx
  | priced {trx trx' : ReportTrx} (h : FromSource env trx) {symb : String} {i : ℕ}
      {calculator : TrxPriceCalculator}
      (hcalculator : (symb, calculator) ∈ ccyCalculators env trx i)
      {pubTradePrice triangulationPrice : Option ℚ}
      (hcalc : calculator.calcPrice pubTradePrice triangulationPrice trx = .ok trx') :
      FromSource env trx'

/-- All transactions that come to the look-up are reportable. -/
theorem ReportTrx.FromSource.reportable {trx : ReportTrx} (h : trx.FromSource env) :
    trx.toTrx.Reportable := by
  induction h with
  | trade hremap => exact remapTrade_reportable hremap
  | movement hremap => exact remapMovement_reportable hremap
  | priced _ hcalculator hcalc ih => exact calcPrice_reportable ih hcalculator hcalc

end Reportable

section Aside

variable {env : TaxEnv} {opts : LookUpOpts} {sale : Sale} {ctx : LookUpCtx} {trade lot : Trade}

/-- What a look-up leaves alone of a trade; one that cannot be looked up it does not touch. -/
structure Aside (env : TaxEnv) (opts : LookUpOpts) (trade trade' : Trade) : Prop where
  trx : SameTrx env trade.toTrx trade'.toTrx
  flag : trade'.isBuyTradesWithUnrealizedProfitForPrevPeriod =
    trade.isBuyTradesWithUnrealizedProfitForPrevPeriod
  idle : trade.canBeLookedUp opts = false → trade' = trade

theorem Aside.refl (trade : Trade) : Aside env opts trade trade :=
  ⟨SameTrx.refl _, rfl, fun _ => rfl⟩

theorem Aside.trans {trade₁ trade₂ trade₃ : Trade} (h : Aside env opts trade₁ trade₂)
    (h' : Aside env opts trade₂ trade₃) : Aside env opts trade₁ trade₃ where
  trx := h.trx.trans h'.trx
  flag := h'.flag.trans h.flag
  idle := by
    intro hidle
    obtain rfl := h.idle hidle
    exact h'.idle hidle

theorem matchLot_idle (hidle : lot.canBeLookedUp opts = false) :
    (matchLot env opts sale ctx trade lot).lots = lot := by
  simp [matchLot, hidle]

theorem lookUpLots_idle (ctx : LookUpCtx) (trade : Trade) (lots : List Trade) :
    List.Forall₂ (fun lot lot' => lot.canBeLookedUp opts = false → lot' = lot) lots
      (lookUpLots env opts sale ctx trade lots).lots := by
  have hsame : ∀ lots : List Trade,
      List.Forall₂ (fun lot lot' : Trade => lot.canBeLookedUp opts = false → lot' = lot) lots
        lots :=
    fun lots => List.forall₂_same.mpr fun _ _ _ => rfl
  induction lots generalizing ctx trade with
  | nil => exact .nil
  | cons lot rest ih =>
    simp only [lookUpLots]
    split
    · exact hsame _
    split
    · exact hsame _
    split
    · exact .cons matchLot_idle (ih _ _)
    · exact .cons matchLot_idle (hsame rest)

theorem openSale_idle (hidle : trade.canBeLookedUp opts = false) :
    openSale env opts ctx trade = (trade, ctx, .skipped) := by
  simp [openSale, hidle]

/-- One turn of the sale loop. -/
theorem lookUpSale_aside {older : List Trade} (ctx : LookUpCtx)
    (hbound : ∀ t ∈ trade :: older, TradeBound t) :
    List.Forall₂ (Aside env opts) (trade :: older)
      ((lookUpSale env opts ctx trade older).trade ::
        (lookUpSale env opts ctx trade older).lots) := by
  obtain ⟨htrade, holder⟩ := List.forall_mem_cons.mp hbound
  have hscan := lookUpSale_scanned env opts ctx htrade.sale fun lot hlot => (holder lot hlot).lot
  have hidle : trade.canBeLookedUp opts = false →
      (lookUpSale env opts ctx trade older).trade = trade := by
    intro hidle
    simp only [lookUpSale, openSale_idle hidle]
    split <;> rfl
  have hlots : List.Forall₂ (fun lot lot' => lot.canBeLookedUp opts = false → lot' = lot) older
      (lookUpSale env opts ctx trade older).lots := by
    have hsame : List.Forall₂ (fun lot lot' : Trade => lot.canBeLookedUp opts = false → lot' = lot)
        older older := List.forall₂_same.mpr fun _ _ _ => rfl
    simp only [lookUpSale]
    split
    · exact hsame
    rcases openSale env opts ctx.polled trade with ⟨trade₁, ctx₁, opening⟩
    cases opening with
    | skipped => exact hsame
    | thrown err => exact hsame
    | opened sale => exact forall₂_buyLookUpOrder (lookUpLots_idle _ _ _)
  obtain ⟨isBuyTrx, hbook⟩ := hscan.buyBook
  apply List.Forall₂.cons
  · exact ⟨hscan.trx, by rw [hbook], hidle⟩
  · exact (hscan.drawn.mp fun _ _ hdraw hidle => ⟨hdraw.trx, hdraw.flag, hidle⟩) hlots

end Aside

section Run

variable {env : TaxEnv} {opts : LookUpOpts} {R : Trade → Trade → Prop}

/-- What every turn does to the trades from its own on, the run does to them all. -/
theorem lookUpSales_forall₂ (hrefl : ∀ t, R t t) (htrans : ∀ a b c, R a b → R b c → R a c)
    (hturn : ∀ ctx trade older, (∀ t ∈ trade :: older, TradeBound t) →
      List.Forall₂ R (trade :: older) ((lookUpSale env opts ctx trade older).trade ::
        (lookUpSale env opts ctx trade older).lots))
    (ctx : LookUpCtx) {trades : List Trade} (hbound : ∀ t ∈ trades, TradeBound t) :
    List.Forall₂ R trades (lookUpSales env opts ctx trades).trades := by
  have hsame : ∀ ts : List Trade, List.Forall₂ R ts ts :=
    fun ts => List.forall₂_same.mpr fun t _ => hrefl t
  have hback : ∀ ts : List Trade, (∀ t ∈ ts, TradeBound t) →
      List.Forall₂ R ts (lookUpSalesBack env opts ctx ts).trades := by
    intro ts hts
    induction ts with
    | nil => exact .nil
    | cons trade older ih =>
      obtain ⟨htrade, holder⟩ := List.forall_mem_cons.mp hts
      have hrun := (lookUpSalesBack_allocation env opts ctx older holder).1
      simp only [lookUpSalesBack]
      split
      · exact forall₂_trans (.cons (hrefl trade) (ih holder))
          (hturn _ _ _ (List.forall_mem_cons.mpr ⟨htrade, hrun⟩)) htrans
      · exact .cons (hrefl trade) (ih holder)
  have hforth : ∀ (n : ℕ) (ctx : LookUpCtx) (ts : List Trade), (∀ t ∈ ts, TradeBound t) →
      List.Forall₂ R ts (lookUpSalesForth env opts n ctx ts).trades := by
    intro n
    induction n with
    | zero => intro ctx ts _; cases ts <;> exact hsame _
    | succ n ih =>
      intro ctx ts hts
      cases ts with
      | nil => exact .nil
      | cons trade older =>
        obtain ⟨htrade, holder⟩ := List.forall_mem_cons.mp hts
        have hscan := lookUpSale_scanned env opts ctx htrade.sale
          fun lot hlot => (holder lot hlot).lot
        have hlots := (List.forall_mem_cons.mp (hscan.tradeBound hts)).2
        obtain ⟨hhead, htail⟩ := List.forall₂_cons.mp (hturn ctx trade older hts)
        simp only [lookUpSalesForth]
        split
        · exact .cons hhead (forall₂_trans htail (ih _ _ hlots) htrans)
        · exact .cons hhead htail
  unfold lookUpSales
  split
  · exact hback trades hbound
  · exact hforth _ ctx trades hbound

end Run

section Completion

variable {env : TaxEnv} {opts : LookUpOpts} {sale : Sale} {ctx : LookUpCtx} {trade lot : Trade}
  {older : List Trade}

/-- The symbols of the pair are known, so that the loops do not throw. -/
def Separated (env : TaxEnv) (trades : List Trade) : Prop :=
  ∀ trade ∈ trades, trade.symbError? env = none

theorem Separated.of_sameTrx {trades trades' : List Trade} (h : Separated env trades)
    (htrx : List.Forall₂ (fun t t' : Trade => SameTrx env t.toTrx t'.toTrx) trades trades') :
    Separated env trades' := by
  intro trade' htrade'
  obtain ⟨trade, htrade, hsame⟩ := mem_of_forall₂ htrx htrade'
  rw [← hsame.congr (symbError? env) (symbError?_withSymbs env)]
  exact h trade htrade

theorem matchLot_completes (ctx : LookUpCtx) (trade : Trade) (hlot : lot.symbError? env = none) :
    (matchLot env opts sale ctx trade lot).exit = .completed := by
  simp only [matchLot, hlot]
  split
  · rfl
  split
  · rfl
  split
  · rfl
  split <;> rfl

theorem lookUpLots_completes (hctx : ctx.pollsLeft = none) (trade : Trade) {lots : List Trade}
    (hlots : Separated env lots) :
    (lookUpLots env opts sale ctx trade lots).exit = .completed := by
  induction lots generalizing ctx trade with
  | nil => rfl
  | cons lot rest ih =>
    obtain ⟨hlot, hrest⟩ := List.forall_mem_cons.mp hlots
    have hpolled : ctx.polled.pollsLeft = none := by simp [LookUpCtx.polled, hctx]
    simp only [lookUpLots, LookUpCtx.hasInterrupted_of_never hctx, Bool.false_eq_true, ↓reduceIte,
      matchLot_completes ctx.polled trade hlot]
    split
    · rfl
    · exact ih (matchLot_never hpolled) _ hrest

theorem openSale_not_thrown (ctx : LookUpCtx) (htrade : trade.symbError? env = none)
    (err : CurrencyPairSeparationError) : (openSale env opts ctx trade).2.2 ≠ .thrown err := by
  rw [openSale_eq, htrade]
  split
  · nofun
  split
  · nofun
  dsimp only
  split <;> nofun

/-- One turn of the sale loop. -/
theorem lookUpSale_completes (hctx : ctx.pollsLeft = none)
    (hpairs : Separated env (trade :: older)) :
    (lookUpSale env opts ctx trade older).exit = .completed := by
  obtain ⟨htrade, holder⟩ := List.forall_mem_cons.mp hpairs
  have hthrown : ∀ err, (openSale env opts ctx.polled trade).2.2 ≠ .thrown err :=
    openSale_not_thrown ctx.polled htrade
  have hopen : (openSale env opts ctx.polled trade).2.1.pollsLeft = none :=
    openSale_never (by simp [LookUpCtx.polled, hctx])
  simp only [lookUpSale, LookUpCtx.hasInterrupted_of_never hctx, Bool.false_eq_true, ↓reduceIte]
  generalize openSale env opts ctx.polled trade = opened at hthrown hopen ⊢
  obtain ⟨trade₁, ctx₁, opening⟩ := opened
  cases opening with
  | skipped => rfl
  | thrown err => exact absurd rfl (hthrown err)
  | opened sale =>
    apply lookUpLots_completes hopen
    intro lot hlot
    exact holder lot (mem_buyLookUpOrder.mp hlot)

theorem lookUpSalesBack_completes (hctx : ctx.pollsLeft = none) {trades : List Trade}
    (hbound : ∀ t ∈ trades, TradeBound t) (hpairs : Separated env trades) :
    (lookUpSalesBack env opts ctx trades).exit = .completed ∧
      (lookUpSalesBack env opts ctx trades).ctx.pollsLeft = none := by
  induction trades with
  | nil => exact ⟨rfl, hctx⟩
  | cons trade older ih =>
    obtain ⟨htrade, holder⟩ := List.forall_mem_cons.mp hbound
    have hpair : trade.symbError? env = none := hpairs trade List.mem_cons_self
    have holderPairs : Separated env older := (List.forall_mem_cons.mp hpairs).2
    obtain ⟨hexit, hrunCtx⟩ := ih holder holderPairs
    obtain ⟨-, qty, hrun⟩ := lookUpSalesBack_allocation env opts ctx older holder
    simp only [lookUpSalesBack, hexit]
    constructor
    · apply lookUpSale_completes hrunCtx
      exact List.forall_mem_cons.mpr ⟨hpair, holderPairs.of_sameTrx hrun.trx⟩
    · exact lookUpSale_never hrunCtx _

theorem lookUpSalesForth_completes (n : ℕ) (hctx : ctx.pollsLeft = none) {trades : List Trade}
    (hbound : ∀ t ∈ trades, TradeBound t) (hpairs : Separated env trades) :
    (lookUpSalesForth env opts n ctx trades).exit = .completed := by
  induction n generalizing ctx trades with
  | zero => cases trades <;> rfl
  | succ n ih =>
    cases trades with
    | nil => rfl
    | cons trade older =>
      obtain ⟨htrade, holder⟩ := List.forall_mem_cons.mp hbound
      have hscan :=
        lookUpSale_scanned env opts ctx htrade.sale fun lot hlot => (holder lot hlot).lot
      have holderPairs : Separated env older := (List.forall_mem_cons.mp hpairs).2
      simp only [lookUpSalesForth, lookUpSale_completes hctx hpairs]
      apply ih (lookUpSale_never hctx older)
      · exact (List.forall_mem_cons.mp (hscan.tradeBound hbound)).2
      · exact holderPairs.of_sameTrx (hscan.drawn.imp fun _ _ hdraw => hdraw.trx)

/-- A look-up that nobody interrupts comes to its end. -/
theorem lookUpSales_completes (hctx : ctx.pollsLeft = none) {trades : List Trade}
    (hbound : ∀ t ∈ trades, TradeBound t) (hpairs : Separated env trades) :
    (lookUpSales env opts ctx trades).exit = .completed := by
  unfold lookUpSales
  split
  · exact (lookUpSalesBack_completes hctx hbound hpairs).1
  · exact lookUpSalesForth_completes _ hctx hbound hpairs

end Completion

section Report

variable {env : TaxEnv} {opts : LookUpOpts} {ctx : LookUpCtx} {trades : List Trade}

/-- Only a payment has no cost. -/
def TaxEntry.IsFinite (entry : TaxEntry) : Prop :=
  entry.amount.isSome = true ∧ entry.proceeds.isSome = true ∧ entry.gainOrLoss.isSome = true ∧
    (entry.type = .exchange → entry.cost.isSome = true)

/-- Every number of the report is finite.  The fees of a sale have quotients by what was
left of its lots. -/
structure IsFiniteReport (env : TaxEnv) (opts : LookUpOpts) (ctx : LookUpCtx)
    (trades : List Trade) : Prop where
  entries : ∀ entry ∈ (lookUpTrades env opts ctx trades).saleTradesWithRealizedProfit,
    entry.IsFinite
  shares : ∀ row ∈ fillRows env opts ctx trades, ∀ fill ∈ row,
    fill.qty < fill.restAmount → fill.restAmount ≠ 0

/-- The input of a look-up: transactions that it has not seen, and lots of the previous
period. -/
structure ReportInput (trades : List Trade) : Prop where
  reportable : ∀ trade ∈ trades, trade.toTrx.Reportable
  fit : ∀ trade ∈ trades, TradeFit trade
  fresh : ∀ trade ∈ trades, trade.isBuyTradesWithUnrealizedProfitForPrevPeriod = false →
    trade.noPriceUsd = false

/-- Every payment of the period has a price. -/
def PaymentsPriced (trades : List Trade) : Prop :=
  ∀ trade ∈ trades, trade.isTaxablePayment = true →
    trade.isBuyTradesWithUnrealizedProfitForPrevPeriod = false →
      trade.firstSymbPriceUsd.isSome = true

theorem paymentProceeds_isSome (trade : Trade) :
    (paymentProceeds opts trade).isSome =
      (trade.execAmount.isSome && trade.firstSymbPriceUsd.isSome) := by
  unfold paymentProceeds
  cases trade.execAmount <;> cases trade.firstSymbPriceUsd <;> rfl

/-- Only a payment without a price gives an entry that is not finite. -/
theorem pushedEntry_isFinite {trade : Trade} {entry : TaxEntry}
    (h : pushedEntry opts trade = some entry)
    (hpayment : trade.isTaxablePayment = true →
      trade.isBuyTradesWithUnrealizedProfitForPrevPeriod = false →
        trade.execAmount.isSome = true ∧ trade.firstSymbPriceUsd.isSome = true ∧
          getTrxTaxType trade.toTrx ≠ .exchange) : entry.IsFinite := by
  unfold pushedEntry at h
  split at h
  · cases h
  next hpassed =>
    simp only [Bool.or_eq_true, not_or, Bool.not_eq_true] at hpassed
    split at h
    next htaxable =>
      cases h
      obtain ⟨hamount, hprice, htype⟩ := hpayment htaxable hpassed.1.2
      have hproceeds : (paymentProceeds opts trade).isSome = true := by
        rw [paymentProceeds_isSome, hamount, hprice]
        rfl
      exact ⟨hamount, hproceeds, hproceeds, fun hexchange => absurd hexchange htype⟩
    · cases h
      exact ⟨rfl, rfl, rfl, fun _ => rfl⟩

/-- The entry of a payment that no loop has touched. -/
theorem pushedEntry_of_payment {trade : Trade}
    (hopts : opts.isBuyTradesWithUnrealizedProfitRequired = false)
    (hnoPrice : trade.noPriceUsd = false)
    (hflag : trade.isBuyTradesWithUnrealizedProfitForPrevPeriod = false)
    (hpayment : trade.isTaxablePayment = true) :
    ∃ entry, pushedEntry opts trade = some entry ∧
      entry.proceeds = paymentProceeds opts trade := by
  unfold pushedEntry
  simp [hopts, hnoPrice, hflag, hpayment]

/-- A payment without a price cannot be looked up. -/
theorem Trx.Reportable.not_canBeLookedUp {trx : Trx} (h : trx.Reportable)
    (hopts : opts.isBuyTradesWithUnrealizedProfitRequired = false)
    (hpayment : trx.isTaxablePayment = true) (hprice : trx.firstSymbPriceUsd = none) :
    trx.canBeLookedUp opts = false := by
  have hexecPrice : trx.execPrice = some 0 := by
    rw [h.price (h.payment hpayment), hprice]
    rfl
  simp [canBeLookedUp, hopts, Trx.price, hexecPrice]

theorem entryOf_of_completed (hopts : opts.isBuyTradesWithUnrealizedProfitRequired = false)
    (hexit : (lookUpSales env opts ctx trades).exit = .completed) (i : ℕ) :
    (lookUpTrades env opts ctx trades).entryOf opts i =
      (lookUpSales env opts ctx trades).trades[i]?.bind (pushedEntry opts) := by
  have hmark : markUnrealized opts = id := funext (markUnrealized_of_not_required hopts)
  unfold LookUpResult.entryOf lookUpTrades
  simp only [hexit, hmark, List.map_id]

theorem lookUpSales_aside (ctx : LookUpCtx) (hinput : ReportInput trades) :
    List.Forall₂ (Aside env opts) trades (lookUpSales env opts ctx trades).trades := by
  apply lookUpSales_forall₂ Aside.refl (fun _ _ _ h h' => h.trans h')
  · intro ctx trade older hbound
    exact lookUpSale_aside ctx hbound
  · intro trade htrade
    exact (hinput.fit trade htrade).bound

/-- If every payment has a price, the report is finite, however the look-up is left. -/
theorem isFiniteReport_of_paymentsPriced (ctx : LookUpCtx) (hinput : ReportInput trades)
    (hpriced : opts.isBuyTradesWithUnrealizedProfitRequired = true ∨ PaymentsPriced trades) :
    IsFiniteReport env opts ctx trades := by
  constructor
  · intro entry hentry
    obtain ⟨i, hi⟩ := mem_saleTradesWithRealizedProfit.mp hentry
    obtain ⟨hopts, hexit, trade', htrade', hpushed⟩ := entryOf_eq_some hi
    have hpriced : PaymentsPriced trades := by
      rcases hpriced with hrequired | hpriced
      · exact nomatch hopts.symm.trans hrequired
      · exact hpriced
    obtain ⟨trade, htrade, haside⟩ := mem_of_forall₂ (lookUpSales_aside ctx hinput)
      (List.mem_of_getElem? htrade')
    have hreportable := hinput.reportable trade htrade
    apply pushedEntry_isFinite hpushed
    intro hpayment hflag
    have hpayment' : trade.isTaxablePayment = true := by
      rw [haside.trx.congr (·.isTaxablePayment) fun _ => rfl]
      exact hpayment
    rw [haside.flag] at hflag
    rw [← haside.trx.congr (·.execAmount) fun _ => rfl,
      ← haside.trx.congr (·.firstSymbPriceUsd) fun _ => rfl,
      ← haside.trx.congr getTrxTaxType fun _ => rfl]
    exact ⟨hreportable.execAmount, hpriced trade htrade hpayment' hflag,
      hreportable.type.mp hpayment'⟩
  · intro row hrow fill hfill hless
    have hfair := fillRows_fair env opts ctx hinput.fit row hrow fill hfill
    exact (lt_of_le_of_lt hfair.nonneg hless).ne'

/-- The report of every run is finite exactly if no payment of the period lacks a price. -/
theorem report_finite_iff (env : TaxEnv) (opts : LookUpOpts) (trades : List Trade)
    (hinput : ReportInput trades) (hpairs : Separated env trades) :
    (∀ ctx, IsFiniteReport env opts ctx trades) ↔
      opts.isBuyTradesWithUnrealizedProfitRequired = true ∨ PaymentsPriced trades := by
  constructor
  · intro hfinite
    cases hopts : opts.isBuyTradesWithUnrealizedProfitRequired with
    | true => exact .inl rfl
    | false =>
      right
      intro trade htrade hpayment hflag
      by_contra hprice
      rw [Bool.not_eq_true, Option.isSome_eq_false_iff, Option.isNone_iff_eq_none] at hprice
      have hreportable := hinput.reportable trade htrade
      have hidle := hreportable.not_canBeLookedUp hopts hpayment hprice
      obtain ⟨i, hi, rfl⟩ := List.getElem_of_mem htrade
      have haside : List.Forall₂ (Aside env opts) trades (lookUpSales env opts {} trades).trades :=
        lookUpSales_aside {} hinput
      have hi' : i < (lookUpSales env opts {} trades).trades.length := haside.length_eq ▸ hi
      have hkept := (haside.get hi hi').idle hidle
      have hexit : (lookUpSales env opts {} trades).exit = .completed :=
        lookUpSales_completes rfl (fun t ht => (hinput.fit t ht).bound) hpairs
      obtain ⟨entry, hpushed, hproceeds⟩ := pushedEntry_of_payment hopts
        (hinput.fresh _ htrade hflag) hflag hpayment
      have hentry : (lookUpTrades env opts {} trades).entryOf opts i = some entry := by
        rw [entryOf_of_completed hopts hexit, List.getElem?_eq_getElem hi']
        rw [List.get_eq_getElem, List.get_eq_getElem] at hkept
        rw [hkept, Option.bind_some, hpushed]
      have hlisted := mem_saleTradesWithRealizedProfit.mpr ⟨i, hentry⟩
      have hpay := ((hfinite {}).entries entry hlisted).2.1
      rw [hproceeds, paymentProceeds_isSome, hprice, Option.isSome_none, Bool.and_false] at hpay
      cases hpay
  · intro hpriced ctx
    exact isFiniteReport_of_paymentsPriced ctx hinput hpriced

end Report

namespace FiniteEntriesWitness

def usdEnv : TaxEnv := ⟨["USD"], fun _ => ("", "")⟩

/-- An airdrop of one coin without a stored value. -/
def airdropRow : MovementRow where
  _id := 1
  currency := "ALBT"
  mtsUpdated := some 1
  amount := some 1
  fees := none
  exactUsdValue := none
  isLedgers := true
  _isAirdropOnWallet := true
  _isMarginFundingPayment := false
  _isAffiliateRebate := false
  _isStakingPayments := false

/-- As it is remapped, and at the price that the conversion has found. -/
def airdrop : Option ℚ → Trade
  | none => .ofTrx (airdropRow.trx 1 1).toTrx
  | some priceUsd => .ofTrx ((airdropRow.trx 1 1).atPrice priceUsd).toTrx

/-- The value that is stored with the airdrop gives the price 2. -/
theorem fromSource_airdrop :
    (airdropRow.trx 1 1).FromSource usdEnv ∧
      (({ airdropRow with exactUsdValue := some 2 }.trx 1 1).atPrice 2).FromSource usdEnv :=
  ⟨@ReportTrx.FromSource.movement _ airdropRow _ (by decide +kernel),
    @ReportTrx.FromSource.movement _ { airdropRow with exactUsdValue := some 2 } _
      (by decide +kernel)⟩

theorem airdrops_input (prices : List (Option ℚ))
    (hprices : ∀ priceUsd ∈ prices, priceUsd = none ∨ priceUsd = some 2) :
    ReportInput (prices.map airdrop) ∧ Separated usdEnv (prices.map airdrop) := by
  refine ⟨⟨?_, ?_, ?_⟩, ?_⟩ <;> intro trade htrade <;>
    obtain ⟨priceUsd, hprice, rfl⟩ := List.mem_map.mp htrade
  · rcases hprices priceUsd hprice with rfl | rfl
    · exact fromSource_airdrop.1.reportable
    · exact fromSource_airdrop.2.reportable
  · apply Unfilled.tradeFit
    cases priceUsd <;> exact ⟨rfl, rfl, rfl, rfl, rfl⟩
  · cases priceUsd <;> exact fun _ => rfl
  · cases priceUsd <;> rfl

/-- One airdrop has a price, and a second one has none. -/
theorem report_finite_iff_of_airdrop :
    (∀ ctx, IsFiniteReport usdEnv {} ctx [airdrop (some 2)]) ∧
      ¬ ∀ ctx, IsFiniteReport usdEnv {} ctx [airdrop (some 2), airdrop none] := by
  have hpriced := airdrops_input [some 2] (by simp)
  have hmissing := airdrops_input [some 2, none] (by simp)
  constructor
  · apply (report_finite_iff usdEnv {} _ hpriced.1 hpriced.2).mpr
    right
    intro trade htrade _ _
    rw [List.mem_singleton.mp htrade]
    rfl
  · intro hfinite
    rcases (report_finite_iff usdEnv {} _ hmissing.1 hmissing.2).mp hfinite with hopts | hprices
    · cases hopts
    · have := hprices (airdrop none) (by simp) rfl rfl
      cases this

/-- The proceeds of an airdrop of a delisted currency are no number. -/
theorem airdrop_not_finite :
    (remapMovement usdEnv airdropRow).trx? = some (airdropRow.trx 1 1) ∧
      (lookUpTrades usdEnv {} {} [airdrop none]).saleTradesWithRealizedProfit.map (·.proceeds) =
        [none] ∧
      ¬ IsFiniteReport usdEnv {} {} [airdrop none] := by
  have hremapped : (remapMovement usdEnv airdropRow).trx? = some (airdropRow.trx 1 1) := by
    decide +kernel
  have hentry : (lookUpTrades usdEnv {} {} [airdrop none]).saleTradesWithRealizedProfit =
      [⟨"ALBT", some 1, some 1, none, none, none, none, .airdropOnWallet⟩] := by decide +kernel
  rw [hentry]
  refine ⟨hremapped, rfl, fun hfinite => ?_⟩
  have hproceeds := (hfinite.entries _ (by rw [hentry]; exact List.mem_singleton_self _)).2.1
  cases hproceeds

end FiniteEntriesWitness

end ReportsFramework
