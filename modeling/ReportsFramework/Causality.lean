/-
Causality of the tax report.  Transactions that come later stand before the
others in the array.  The sale loop from the oldest trade on comes to them last;
the one from the newest on comes to them first, and only an asset whose older
lots they leave alone is accounted for as before.
-/
import ReportsFramework.TaxLotConservation

namespace ReportsFramework

open Trx

/-- Two copies of a trade agree in all that a sale of `asset` reads. -/
structure Twin (env : TaxEnv) (asset : String) (trade trade' : Trade) :
    Prop where
  trx : SameTrx env trade.toTrx trade'.toTrx
  saleBook : trade'.toSaleBook = trade.toSaleBook
  flag : trade'.isBuyTradesWithUnrealizedProfitForPrevPeriod =
    trade.isBuyTradesWithUnrealizedProfitForPrevPeriod
  lot : trade.isNoLot env = false → trade.boughtAsset env = asset →
    trade'.buyFilledAmount = trade.buyFilledAmount ∧
      trade'.isBuyTrxHistFilled = trade.isBuyTrxHistFilled

/-- Two copies of the trade on sale. -/
structure SaleTwin (trade trade' : Trade) : Prop where
  trx : trade'.toTrx = trade.toTrx
  saleBook : trade'.toSaleBook = trade.toSaleBook

variable {env : TaxEnv} {opts : LookUpOpts} {sale : Sale}
variable {ctx ctx' : LookUpCtx} {trade trade' lot lot' : Trade}
variable {asset : String}

theorem lotTouches_twin (opts : LookUpOpts) (h : Twin env sale.asset lot lot') :
    lotTouches env opts sale lot' = lotTouches env opts sale lot := by
  have hcan := h.trx.congr (canBeLookedUp opts)
    (canBeLookedUp_withSymbs env opts)
  have hsymb := h.trx.congr (symbError? env) (symbError?_withSymbs env)
  have hnoLot := h.trx.congr (isNoLot env) (isNoLot_withSymbs env)
  have hasset := h.trx.congr (boughtAsset env) (boughtAsset_withSymbs env)
  simp only [lotTouches, ← hcan, ← hsymb, ← hnoLot, ← hasset]
  cases hno : lot.isNoLot env with
  | true => simp
  | false =>
      by_cases hsame : sale.asset = lot.boughtAsset env
      · rw [(h.lot hno hsame.symm).2]
      · simp [beq_eq_false_iff_ne.mpr hsame]

theorem fillLot_twin (opts : LookUpOpts) (sale : Sale) (price : ℚ)
    (htrade : SaleTwin trade trade')
    (htrx : lot'.toTrx = lot.toTrx)
    (hfilled : lot'.buyFilledAmount = lot.buyFilledAmount)
    (hhist : lot'.isBuyTrxHistFilled = lot.isBuyTrxHistFilled) :
    SaleTwin (fillLot opts sale price trade lot).1
        (fillLot opts sale price trade' lot').1 ∧
      (fillLot opts sale price trade' lot').2.buyFilledAmount =
        (fillLot opts sale price trade lot).2.buyFilledAmount ∧
      (fillLot opts sale price trade' lot').2.isBuyTrxHistFilled =
        (fillLot opts sale price trade lot).2.isBuyTrxHistFilled := by
  refine ⟨⟨?_, ?_⟩, ?_, ?_⟩
  · rw [(fillLot_sale_frame opts sale price trade lot).1,
      (fillLot_sale_frame opts sale price trade' lot').1, htrade.trx]
  · simp only [fillLot, htrx, hfilled, htrade.saleBook]
    split_ifs <;> simp
  · rw [fillLot_buyFilledAmount, fillLot_buyFilledAmount, fillQty, fillQty,
      htrx, hfilled, htrade.saleBook]
  · rw [fillLot_isBuyTrxHistFilled, fillLot_isBuyTrxHistFilled, htrx, hfilled,
      hhist, htrade.saleBook]

/-- The step lemma of the two inner loops. -/
theorem matchLot_twin (ctx ctx' : LookUpCtx) (htrade : SaleTwin trade trade')
    (hlot : Twin env sale.asset lot lot') :
    SaleTwin (matchLot env opts sale ctx trade lot).trade
        (matchLot env opts sale ctx' trade' lot').trade ∧
      Twin env sale.asset (matchLot env opts sale ctx trade lot).lots
        (matchLot env opts sale ctx' trade' lot').lots := by
  have htouch' := lotTouches_twin opts hlot
  cases htouch : lotTouches env opts sale lot with
  | false =>
      rw [htouch] at htouch'
      obtain ⟨trx, isBuyTrx, hsale₁, hlot₁, -, htrx⟩ :=
        matchLot_of_not_touches ctx trade htouch
      obtain ⟨trx', isBuyTrx', hsale₁', hlot₁', -, htrx'⟩ :=
        matchLot_of_not_touches ctx' trade' htouch'
      rw [hsale₁, hsale₁', hlot₁, hlot₁']
      refine ⟨htrade, ?_, hlot.saleBook, hlot.flag, ?_⟩
      · exact (Eq.symm htrx).trans (hlot.trx.trans htrx')
      · show trx.isNoLot env = false → trx.boughtAsset env = sale.asset → _
        rw [← htrx.congr (isNoLot env) (isNoLot_withSymbs env),
          ← htrx.congr (boughtAsset env) (boughtAsset_withSymbs env)]
        exact hlot.lot
  | true =>
      rw [htouch] at htouch'
      obtain ⟨hno, hasset⟩ : lot.isNoLot env = false ∧
          sale.asset = lot.boughtAsset env := by
        simp only [lotTouches, Bool.and_eq_true, Bool.not_eq_true',
          beq_iff_eq] at htouch
        exact ⟨htouch.1.2, htouch.2⟩
      obtain ⟨hfilled, hhist⟩ := hlot.lot hno hasset.symm
      have htrx : (lot'.asLot env).toTrx = (lot.asLot env).toTrx :=
        hlot.trx.symm
      have hmts : lot'.mtsCreate = lot.mtsCreate :=
        (hlot.trx.congr (·.mtsCreate) fun _ => rfl).symm
      have hprice : lot'.buyPriceUsd opts = lot.buyPriceUsd opts :=
        (hlot.trx.congr (buyPriceUsd opts) (buyPriceUsd_withSymbs env opts)).symm
      have hnoting : SaleTwin (trade.noting lot) (trade'.noting lot') := by
        refine ⟨htrade.trx, ?_⟩
        simp only [Trade.noting, htrade.saleBook, hmts]
      rw [matchLot_of_touches ctx trade htouch,
        matchLot_of_touches ctx' trade' htouch', hprice]
      cases lot.buyPriceUsd opts with
      | none =>
          refine ⟨⟨hnoting.trx, ?_⟩, ?_⟩
          · simp only [hnoting.saleBook]
          · exact ⟨(sameTrx_withSymbs env lot.toTrx).symm.trans (hlot.trx.trans
              (sameTrx_withSymbs env lot'.toTrx)), hlot.saleBook, hlot.flag,
              fun _ _ => ⟨hfilled, hhist⟩⟩
      | some price =>
          obtain ⟨hsale, hfilled₁, hhist₁⟩ := fillLot_twin opts sale price
            hnoting htrx hfilled hhist
          have hframe := fillLot_lot_frame opts sale price (trade.noting lot)
            (lot.asLot env)
          have hframe' := fillLot_lot_frame opts sale price
            (trade'.noting lot') (lot'.asLot env)
          refine ⟨hsale, ?_, ?_, ?_, fun _ _ => ⟨hfilled₁, hhist₁⟩⟩
          · rw [hframe.1, hframe'.1, htrx]
            exact SameTrx.refl _
          · rw [hframe.2, hframe'.2]
            exact hlot.saleBook
          · rw [fillLot_isBuyTradesWithUnrealizedProfitForPrevPeriod,
              fillLot_isBuyTradesWithUnrealizedProfitForPrevPeriod]
            exact hlot.flag

theorem matchLot_never (hctx : ctx.pollsLeft = none) :
    (matchLot env opts sale ctx trade lot).ctx.pollsLeft = none := by
  simp only [matchLot]
  split
  · exact hctx
  split
  · exact hctx
  split
  · exact hctx
  split
  · exact hctx
  split
  · exact hctx
  · exact hctx

/-- The run lemma: two scans that both come to their end agree. -/
theorem lookUpLots_twin (hctx : ctx.pollsLeft = none)
    (hctx' : ctx'.pollsLeft = none) {lots lots' : List Trade}
    (hlots : List.Forall₂ (Twin env sale.asset) lots lots')
    (htrade : SaleTwin trade trade')
    (hexit : (lookUpLots env opts sale ctx trade lots).exit = .completed)
    (hexit' : (lookUpLots env opts sale ctx' trade' lots').exit =
      .completed) :
    SaleTwin (lookUpLots env opts sale ctx trade lots).trade
        (lookUpLots env opts sale ctx' trade' lots').trade ∧
      List.Forall₂ (Twin env sale.asset)
        (lookUpLots env opts sale ctx trade lots).lots
        (lookUpLots env opts sale ctx' trade' lots').lots := by
  induction hlots generalizing ctx ctx' trade trade' with
  | nil => exact ⟨htrade, .nil⟩
  | cons hlot hrest ih =>
      rename_i lot lot' rest rest'
      simp only [lookUpLots, LookUpCtx.hasInterrupted_of_never hctx,
        LookUpCtx.hasInterrupted_of_never hctx',
        LookUpCtx.polled_of_never hctx, LookUpCtx.polled_of_never hctx',
        Bool.false_eq_true, ↓reduceIte, htrade.saleBook]
        at hexit hexit' ⊢
      by_cases hfull : trade.isSaleTrxHistFilled = true
      · simp only [hfull, ↓reduceIte]
        exact ⟨htrade, .cons hlot hrest⟩
      obtain ⟨hsale₁, hlot₁⟩ := matchLot_twin ctx ctx' htrade hlot
      have hctx₁ : (matchLot env opts sale ctx trade lot).ctx.pollsLeft = none :=
        matchLot_never hctx
      have hctx₁' : (matchLot env opts sale ctx' trade' lot').ctx.pollsLeft =
        none := matchLot_never hctx'
      simp only [hfull, Bool.false_eq_true, ↓reduceIte] at hexit hexit' ⊢
      cases hhead : (matchLot env opts sale ctx trade lot).exit with
      | interrupted => simp [hhead] at hexit
      | thrown err => simp [hhead] at hexit
      | completed =>
          cases hhead' : (matchLot env opts sale ctx' trade' lot').exit with
          | interrupted => simp [hhead'] at hexit'
          | thrown err => simp [hhead'] at hexit'
          | completed =>
              simp only [hhead] at hexit
              simp only [hhead'] at hexit'
              obtain ⟨hsale₂, hrest₂⟩ := ih hctx₁ hctx₁' hsale₁ hexit hexit'
              exact ⟨hsale₂, .cons hlot₁ hrest₂⟩

/-- The sale loop enters two copies of a trade alike. -/
theorem openSale_twin (env : TaxEnv) (opts : LookUpOpts)
    (ctx ctx' : LookUpCtx) (h : Twin env asset trade trade') :
    (openSale env opts ctx' trade').2.2 = (openSale env opts ctx trade).2.2 ∧
      (openSale env opts ctx' trade').1.toSaleBook =
        (openSale env opts ctx trade).1.toSaleBook ∧
      ((openSale env opts ctx trade).2.2 = .skipped ∨
        SaleTwin (openSale env opts ctx trade).1
          (openSale env opts ctx' trade').1) := by
  have hcan : trade'.canBeLookedUp opts = trade.canBeLookedUp opts :=
    (h.trx.congr (canBeLookedUp opts) (canBeLookedUp_withSymbs env opts)).symm
  have hsells : trade'.sells env = trade.sells env :=
    (h.trx.congr (sells env) (sells_withSymbs env)).symm
  have hsymb : trade'.symbError? env = trade.symbError? env :=
    (h.trx.congr (symbError? env) (symbError?_withSymbs env)).symm
  have hprice : trade'.salePriceUsd opts = trade.salePriceUsd opts :=
    (h.trx.congr (salePriceUsd opts) (salePriceUsd_withSymbs env opts)).symm
  have hassets : trade'.soldAsset env = trade.soldAsset env :=
    (h.trx.congr (soldAsset env) (soldAsset_withSymbs env)).symm
  have hamount : trade'.soldAmount = trade.soldAmount :=
    (h.trx.congr soldAmount (soldAmount_withSymbs env)).symm
  have hsymbs : trade'.toTrx.withSymbs env = trade.toTrx.withSymbs env :=
    h.trx.symm
  have hsale : SaleTwin (trade.asSale env) (trade'.asSale env) := by
    refine ⟨hsymbs, ?_⟩
    simp only [Trade.asSale, Trade.withSymbs, h.saleBook, hsells]
  have hunpriced : (trade'.asSale env).unpriced.toSaleBook =
      (trade.asSale env).unpriced.toSaleBook := by
    simp only [Trade.unpriced, hsale.saleBook]
  have hcharged : ∀ fee, SaleTwin ((trade.asSale env).charged fee)
      ((trade'.asSale env).charged fee) := by
    intro fee
    exact ⟨hsymbs, by simp only [Trade.charged, hsale.saleBook]⟩
  simp only [openSale_eq, hcan, hsells, hsymb, hprice, hassets, hamount,
    hsymbs, h.flag]
  cases trade.canBeLookedUp opts with
  | false => exact ⟨rfl, h.saleBook, .inl rfl⟩
  | true =>
      cases (!trade.sells env ||
        trade.isBuyTradesWithUnrealizedProfitForPrevPeriod) with
      | true => exact ⟨rfl, hsale.saleBook, .inl rfl⟩
      | false =>
          cases trade.symbError? env with
          | some err => exact ⟨rfl, hsale.saleBook, .inr hsale⟩
          | none =>
              cases trade.salePriceUsd opts with
              | none => exact ⟨rfl, hunpriced, .inl rfl⟩
              | some priceUsd =>
                  exact ⟨rfl, (hcharged _).saleBook, .inr (hcharged _)⟩

theorem openSale_never (hctx : ctx.pollsLeft = none) :
    (openSale env opts ctx trade).2.1.pollsLeft = none := by
  rw [openSale_eq]
  split
  · exact hctx
  split
  · exact hctx
  split
  · exact hctx
  split
  · exact hctx
  · exact hctx

/-- A sale of another asset does not reach the lots that two copies share. -/
theorem Twin.of_drawn {other : String} {lot₁ lot₁' : Trade}
    (h : Twin env asset lot lot') (hother : other ≠ asset)
    (hdrawn : Drawn env opts other lot lot₁)
    (hdrawn' : Drawn env opts other lot' lot₁') :
    Twin env asset lot₁ lot₁' where
  trx := (Eq.symm hdrawn.trx).trans (h.trx.trans hdrawn'.trx)
  saleBook := by rw [hdrawn.saleBook, hdrawn'.saleBook, h.saleBook]
  flag := by rw [hdrawn.flag, hdrawn'.flag, h.flag]
  lot := by
    rw [← hdrawn.trx.congr (isNoLot env) (isNoLot_withSymbs env),
      ← hdrawn.trx.congr (boughtAsset env) (boughtAsset_withSymbs env)]
    intro hno hasset
    have hasset' : lot'.boughtAsset env = asset := by
      rw [← h.trx.congr (boughtAsset env) (boughtAsset_withSymbs env), hasset]
    obtain ⟨hfilled, hhist⟩ := hdrawn.kept fun hmatch =>
      hother (hmatch.1.trans hasset)
    obtain ⟨hfilled', hhist'⟩ := hdrawn'.kept fun hmatch =>
      hother (hmatch.1.trans hasset')
    rw [hfilled, hhist, hfilled', hhist']
    exact h.lot hno hasset

/-- The step lemma of the two sale loops. -/
theorem lookUpSale_twin (hctx : ctx.pollsLeft = none)
    (hctx' : ctx'.pollsLeft = none) {older older' : List Trade}
    (htrade : Twin env asset trade trade')
    (holder : List.Forall₂ (Twin env asset) older older')
    (hbound : ∀ t ∈ trade :: older, TradeBound t)
    (hbound' : ∀ t ∈ trade' :: older', TradeBound t)
    (hexit : (lookUpSale env opts ctx trade older).exit = .completed)
    (hexit' : (lookUpSale env opts ctx' trade' older').exit = .completed) :
    (trade.soldAsset env = asset →
      (lookUpSale env opts ctx' trade' older').trade.toSaleBook =
        (lookUpSale env opts ctx trade older).trade.toSaleBook) ∧
      List.Forall₂ (Twin env asset) (lookUpSale env opts ctx trade older).lots
        (lookUpSale env opts ctx' trade' older').lots := by
  by_cases hasset : trade.soldAsset env = asset
  · obtain ⟨hopening, hbook, hsale⟩ := openSale_twin env opts ctx ctx' htrade
    have hopened : ∀ sale, (openSale env opts ctx trade).2.2 = .opened sale →
        _ := fun _ => openSale_opened
    have hnever : (openSale env opts ctx trade).2.1.pollsLeft = none :=
      openSale_never hctx
    have hnever' : (openSale env opts ctx' trade').2.1.pollsLeft = none :=
      openSale_never hctx'
    simp only [lookUpSale, LookUpCtx.hasInterrupted_of_never hctx,
      LookUpCtx.hasInterrupted_of_never hctx',
      LookUpCtx.polled_of_never hctx, LookUpCtx.polled_of_never hctx',
      Bool.false_eq_true, ↓reduceIte] at hexit hexit' ⊢
    generalize openSale env opts ctx trade = opened at *
    generalize openSale env opts ctx' trade' = opened' at *
    obtain ⟨trade₁, ctx₁, opening⟩ := opened
    obtain ⟨trade₁', ctx₁', opening'⟩ := opened'
    simp only at hopening hbook hsale hnever hnever' hopened
    subst hopening
    cases opening' with
    | skipped => exact ⟨fun _ => hbook, holder⟩
    | thrown err => exact ⟨fun _ => hbook, holder⟩
    | opened sale =>
        obtain ⟨-, -, -, hsold, -⟩ := hopened sale rfl
        have hsaleAsset : sale.asset = asset := hsold.trans hasset
        subst hsaleAsset
        simp only at hexit hexit' ⊢
        have horder : List.Forall₂ (Twin env sale.asset)
            (buyLookUpOrder opts older) (buyLookUpOrder opts older') := by
          apply forall₂_buyLookUpOrder
          rwa [buyLookUpOrder_involutive]
        obtain ⟨hscan, hlots⟩ := lookUpLots_twin hnever hnever' horder
          (hsale.resolve_left (by simp)) hexit hexit'
        refine ⟨fun _ => ?_, ?_⟩
        · simp only [hexit, hexit', ↓reduceIte, closeSale, hscan.saleBook,
            hscan.trx]
        · apply forall₂_buyLookUpOrder
          rwa [buyLookUpOrder_involutive]
  · have hsold : trade'.soldAsset env = trade.soldAsset env :=
      (htrade.trx.congr (soldAsset env) (soldAsset_withSymbs env)).symm
    have hscan := lookUpSale_scanned env opts ctx
      (hbound trade List.mem_cons_self).sale fun lot hmem =>
        (hbound lot (List.mem_cons_of_mem _ hmem)).lot
    have hscan' := lookUpSale_scanned env opts ctx'
      (hbound' trade' List.mem_cons_self).sale fun lot hmem =>
        (hbound' lot (List.mem_cons_of_mem _ hmem)).lot
    refine ⟨fun h => absurd h hasset, ?_⟩
    have hdrawn' := hscan'.drawn
    rw [hsold] at hdrawn'
    have hback : List.Forall₂ (fun lot₁ lot' => ∃ lot,
        Drawn env opts (trade.soldAsset env) lot lot₁ ∧
          Twin env asset lot lot')
        (lookUpSale env opts ctx trade older).lots older' :=
      forall₂_trans (List.Forall₂.flip hscan.drawn) holder
        fun _ lot _ hdrawn htwin => ⟨lot, hdrawn, htwin⟩
    apply forall₂_trans hback hdrawn'
    rintro _ _ _ ⟨_, hdrawn, htwin⟩ hdrawn'
    exact htwin.of_drawn hasset hdrawn hdrawn'

theorem lookUpLots_never (hctx : ctx.pollsLeft = none) (lots : List Trade) :
    (lookUpLots env opts sale ctx trade lots).ctx.pollsLeft = none := by
  induction lots generalizing ctx trade with
  | nil => exact hctx
  | cons lot rest ih =>
      have hpolled : ctx.polled.pollsLeft = none := by
        simp [LookUpCtx.polled, hctx]
      simp only [lookUpLots]
      split
      · exact hctx
      split
      · exact hpolled
      split
      · exact ih (matchLot_never hpolled)
      · exact matchLot_never hpolled

/-- A look-up that is never interrupted stays so. -/
theorem lookUpSale_never (hctx : ctx.pollsLeft = none) (older : List Trade) :
    (lookUpSale env opts ctx trade older).ctx.pollsLeft = none := by
  have hopen : (openSale env opts ctx.polled trade).2.1.pollsLeft = none :=
    openSale_never (by simp [LookUpCtx.polled, hctx])
  simp only [lookUpSale]
  split
  · exact hctx
  generalize openSale env opts ctx.polled trade = opened at hopen
  obtain ⟨trade₁, ctx₁, opening⟩ := opened
  cases opening with
  | skipped => exact hopen
  | thrown err => exact hopen
  | opened sale => exact lookUpLots_never hopen _

/-- Two runs of the sale loop from the newest trade on agree on the sales of
an asset when they start from lists that agree on its lots. -/
theorem lookUpSalesForth_twin (n : ℕ) (hctx : ctx.pollsLeft = none)
    (hctx' : ctx'.pollsLeft = none) {trades trades' : List Trade}
    (htwin : List.Forall₂ (Twin env asset) trades trades')
    (hbound : ∀ t ∈ trades, TradeBound t)
    (hbound' : ∀ t ∈ trades', TradeBound t)
    (hexit : (lookUpSalesForth env opts n ctx trades).exit = .completed)
    (hexit' : (lookUpSalesForth env opts n ctx' trades').exit = .completed) :
    List.Forall₂ (fun t t' : Trade => t.soldAsset env = asset →
        t'.toSaleBook = t.toSaleBook)
      (lookUpSalesForth env opts n ctx trades).trades
      (lookUpSalesForth env opts n ctx' trades').trades := by
  induction n generalizing ctx ctx' trades trades' with
  | zero =>
      cases htwin with
      | nil => exact .nil
      | cons hhead htail =>
          exact (List.Forall₂.cons hhead htail).imp fun _ _ h _ => h.saleBook
  | succ n ih =>
      cases htwin with
      | nil => exact .nil
      | cons hhead htail =>
          rename_i trade trade' older older'
          obtain ⟨htrade, holder⟩ := List.forall_mem_cons.mp hbound
          obtain ⟨htrade', holder'⟩ := List.forall_mem_cons.mp hbound'
          simp only [lookUpSalesForth] at hexit hexit' ⊢
          cases hturn : (lookUpSale env opts ctx trade older).exit with
          | interrupted => simp [hturn] at hexit
          | thrown err => simp [hturn] at hexit
          | completed =>
          cases hturn' : (lookUpSale env opts ctx' trade' older').exit with
          | interrupted => simp [hturn'] at hexit'
          | thrown err => simp [hturn'] at hexit'
          | completed =>
          simp only [hturn] at hexit ⊢
          simp only [hturn'] at hexit' ⊢
          have hscan := lookUpSale_scanned env opts ctx htrade.sale
            fun lot hmem => (holder lot hmem).lot
          have hscan' := lookUpSale_scanned env opts ctx' htrade'.sale
            fun lot hmem => (holder' lot hmem).lot
          obtain ⟨hsold, hlots⟩ := lookUpSale_twin hctx hctx' hhead htail
            hbound hbound' hturn hturn'
          refine .cons ?_ (ih (lookUpSale_never hctx older)
            (lookUpSale_never hctx' older') hlots
            (List.forall_mem_cons.mp (hscan.tradeBound hbound)).2
            (List.forall_mem_cons.mp (hscan'.tradeBound hbound')).2
            hexit hexit')
          rw [← hscan.trx.congr (soldAsset env) (soldAsset_withSymbs env)]
          exact hsold

/-- The sale loop over `m + n` trades is the one over the `m` newest and then,
if that comes to its end, the one over the rest. -/
theorem lookUpSalesForth_add (m n : ℕ) (ctx : LookUpCtx)
    (trades : List Trade)
    (hexit : (lookUpSalesForth env opts (m + n) ctx trades).exit =
      .completed) :
    let first := lookUpSalesForth env opts m ctx trades
    let rest := lookUpSalesForth env opts n first.ctx (first.trades.drop m)
    first.exit = .completed ∧ rest.exit = .completed ∧
      (lookUpSalesForth env opts (m + n) ctx trades).trades =
        first.trades.take m ++ rest.trades := by
  induction m generalizing ctx trades with
  | zero =>
      rw [Nat.zero_add] at hexit ⊢
      cases trades <;> exact ⟨rfl, hexit, rfl⟩
  | succ m ih =>
      rw [Nat.succ_add] at hexit ⊢
      cases trades with
      | nil => cases n <;> exact ⟨rfl, rfl, rfl⟩
      | cons trade older =>
          simp only [lookUpSalesForth] at hexit ⊢
          cases hturn : (lookUpSale env opts ctx trade older).exit with
          | interrupted => simp [hturn] at hexit
          | thrown err => simp [hturn] at hexit
          | completed =>
              simp only [hturn] at hexit ⊢
              obtain ⟨hfirst, hrest, htrades⟩ := ih _ _ hexit
              exact ⟨hfirst, hrest, by simp [htrades]⟩

/-- Under the sale loop from the oldest trade on, later trades are looked up
after all others, and take nothing from their sales. -/
theorem lookUpSalesBack_append (ctx : LookUpCtx) (later original : List Trade)
    (hbound : ∀ t ∈ later ++ original, TradeBound t)
    (hexit : (lookUpSalesBack env opts ctx (later ++ original)).exit =
      .completed) :
    (lookUpSalesBack env opts ctx original).exit = .completed ∧
      ((lookUpSalesBack env opts ctx (later ++ original)).trades.drop
          later.length).map (·.toSaleBook) =
        (lookUpSalesBack env opts ctx original).trades.map (·.toSaleBook) := by
  induction later with
  | nil => exact ⟨hexit, rfl⟩
  | cons trade later ih =>
      rw [List.cons_append] at hbound hexit ⊢
      obtain ⟨htrade, hrest⟩ := List.forall_mem_cons.mp hbound
      simp only [lookUpSalesBack] at hexit ⊢
      cases hrun : (lookUpSalesBack env opts ctx (later ++ original)).exit with
      | interrupted => simp [hrun] at hexit
      | thrown err => simp [hrun] at hexit
      | completed =>
          obtain ⟨hdone, hsales⟩ := ih hrest hrun
          have hbounds := (lookUpSalesBack_allocation env opts ctx _ hrest).1
          have hscan := lookUpSale_scanned env opts
            (lookUpSalesBack env opts ctx (later ++ original)).ctx htrade.sale
            fun lot hmem => (hbounds lot hmem).lot
          have hbooks : ∀ {older older' : List Trade},
              List.Forall₂ (Drawn env opts (trade.soldAsset env)) older older' →
              older'.map (·.toSaleBook) = older.map (·.toSaleBook) := by
            intro older older' hdrawn
            induction hdrawn with
            | nil => rfl
            | cons hhead _ ih => rw [List.map_cons, List.map_cons, ih,
                hhead.saleBook]
          refine ⟨hdone, ?_⟩
          rw [← hsales]
          simp only [List.length_cons, List.drop_succ_cons, List.map_drop,
            hbooks hscan.drawn]

/-- What the turns of the `m` newest trades do to the trades behind them. -/
theorem lookUpSalesForth_drop {R : Trade → Trade → Prop}
    (hrefl : ∀ t, R t t) (htrans : ∀ a b c, R a b → R b c → R a c) (m : ℕ)
    (ctx : LookUpCtx) (trades : List Trade)
    (hbound : ∀ t ∈ trades, TradeBound t)
    (hdrawn : ∀ t ∈ trades.take m, t.sells env = true → ∀ lot lot',
      Drawn env opts (t.soldAsset env) lot lot' → R lot lot') :
    List.Forall₂ R (trades.drop m)
      ((lookUpSalesForth env opts m ctx trades).trades.drop m) := by
  induction m generalizing ctx trades with
  | zero => cases trades <;> exact List.forall₂_same.mpr fun t _ => hrefl t
  | succ m ih =>
      cases trades with
      | nil => exact .nil
      | cons trade older =>
          obtain ⟨htrade, holder⟩ := List.forall_mem_cons.mp hbound
          have hscan := lookUpSale_scanned env opts ctx htrade.sale
            fun lot hmem => (holder lot hmem).lot
          rw [List.take_succ_cons] at hdrawn
          obtain ⟨hhead, htail⟩ := List.forall_mem_cons.mp hdrawn
          have hlots : List.Forall₂ R older
              (lookUpSale env opts ctx trade older).lots := by
            cases hsells : trade.sells env with
            | false =>
                rw [hscan.sells hsells]
                exact List.forall₂_same.mpr fun t _ => hrefl t
            | true => exact hscan.drawn.imp (hhead hsells)
          simp only [lookUpSalesForth]
          split
          · refine forall₂_trans (List.forall₂_drop m hlots) (ih _ _
              (List.forall_mem_cons.mp (hscan.tradeBound hbound)).2 ?_) htrans
            intro t ht
            obtain ⟨t₀, ht₀, hsame⟩ := mem_of_forall₂
              (List.forall₂_take m hscan.drawn) ht
            rw [← hsame.trx.congr (sells env) (sells_withSymbs env),
              ← hsame.trx.congr (soldAsset env) (soldAsset_withSymbs env)]
            exact htail t₀ ht₀
          · exact List.forall₂_drop m hlots

/-- A lot of an asset has not been drawn from. -/
def LotKept (env : TaxEnv) (asset : String) (trade trade' : Trade) : Prop :=
  trade.isNoLot env = false → trade.boughtAsset env = asset →
    trade'.buyFilledAmount = trade.buyFilledAmount ∧
      trade'.isBuyTrxHistFilled = trade.isBuyTrxHistFilled

/-- The trades of a list once the look-up has come to the `later` ones before
it. -/
def afterLater (env : TaxEnv) (opts : LookUpOpts) (ctx : LookUpCtx)
    (later original : List Trade) : List Trade :=
  (lookUpSalesForth env opts later.length ctx (later ++ original)).trades.drop
    later.length

/-- What later sales leave alone in any case. -/
structure Framed (env : TaxEnv) (trade trade' : Trade) : Prop where
  trx : SameTrx env trade.toTrx trade'.toTrx
  saleBook : trade'.toSaleBook = trade.toSaleBook
  flag : trade'.isBuyTradesWithUnrealizedProfitForPrevPeriod =
    trade.isBuyTradesWithUnrealizedProfitForPrevPeriod

theorem framed_afterLater (ctx : LookUpCtx) (later original : List Trade)
    (hbound : ∀ t ∈ later ++ original, TradeBound t) :
    List.Forall₂ (Framed env) original
      (afterLater env opts ctx later original) := by
  have hdrop : List.Forall₂ (Framed env) ((later ++ original).drop later.length)
      (afterLater env opts ctx later original) :=
    lookUpSalesForth_drop (fun t => ⟨SameTrx.refl _, rfl, rfl⟩)
      (fun _ _ _ h h' => ⟨h.trx.trans h'.trx, h'.saleBook.trans h.saleBook,
        h'.flag.trans h.flag⟩)
      later.length ctx (later ++ original) hbound
      fun _ _ _ _ _ h => ⟨h.trx, h.saleBook, h.flag⟩
  rwa [List.drop_left] at hdrop

theorem twin_afterLater (ctx : LookUpCtx) (later original : List Trade)
    (hbound : ∀ t ∈ later ++ original, TradeBound t)
    (hkept : List.Forall₂ (LotKept env asset) original
      (afterLater env opts ctx later original)) :
    List.Forall₂ (Twin env asset) original
      (afterLater env opts ctx later original) :=
  ((framed_afterLater ctx later original hbound).mp fun _ _ h hk =>
    ⟨h.trx, h.saleBook, h.flag, hk⟩) hkept

/-- The later sales leave alone the lots of an asset they do not sell. -/
theorem lotKept_afterLater (ctx : LookUpCtx) (later original : List Trade)
    (hbound : ∀ t ∈ later ++ original, TradeBound t)
    (hsold : ∀ t ∈ later, t.sells env = true → t.soldAsset env ≠ asset) :
    List.Forall₂ (LotKept env asset) original
      (afterLater env opts ctx later original) := by
  have hdrop : List.Forall₂
      (fun t t' => SameTrx env t.toTrx t'.toTrx ∧ LotKept env asset t t')
      ((later ++ original).drop later.length)
      (afterLater env opts ctx later original) := by
    refine lookUpSalesForth_drop (fun t => ⟨SameTrx.refl _, fun _ _ =>
      ⟨rfl, rfl⟩⟩) ?_ later.length ctx (later ++ original) hbound ?_
    · rintro a b c ⟨htrx, hkept⟩ ⟨htrx', hkept'⟩
      refine ⟨htrx.trans htrx', fun hno hasset => ?_⟩
      obtain ⟨hfilled, hhist⟩ := hkept hno hasset
      obtain ⟨hfilled', hhist'⟩ := hkept'
        (by rwa [← htrx.congr (isNoLot env) (isNoLot_withSymbs env)])
        (by rwa [← htrx.congr (boughtAsset env) (boughtAsset_withSymbs env)])
      exact ⟨hfilled'.trans hfilled, hhist'.trans hhist⟩
    · rw [List.take_left]
      intro t hmem hsells lot lot' hdrawn
      refine ⟨hdrawn.trx, fun _ hasset => hdrawn.kept fun hmatch => ?_⟩
      exact hsold t hmem hsells (hmatch.1.trans hasset)
  rw [List.drop_left] at hdrop
  exact hdrop.imp fun _ _ h => h.2

theorem lookUpSalesForth_never (n : ℕ) (hctx : ctx.pollsLeft = none)
    (trades : List Trade) :
    (lookUpSalesForth env opts n ctx trades).ctx.pollsLeft = none := by
  induction n generalizing ctx trades with
  | zero => cases trades <;> exact hctx
  | succ n ih =>
      cases trades with
      | nil => exact hctx
      | cons trade older =>
          have hturn : (lookUpSale env opts ctx trade older).ctx.pollsLeft =
            none := lookUpSale_never hctx older
          simp only [lookUpSalesForth]
          split
          · exact ih hturn _
          · exact hturn

/-- The run from the newest trade on, seen on the original trades. -/
theorem lookUpSalesForth_append (ctx : LookUpCtx) (later original : List Trade)
    (hbound : ∀ t ∈ later ++ original, TradeBound t)
    (hexit : (lookUpSalesForth env opts (later ++ original).length ctx
      (later ++ original)).exit = .completed) :
    ∃ ctx', (ctx.pollsLeft = none → ctx'.pollsLeft = none) ∧
      (∀ t ∈ afterLater env opts ctx later original, TradeBound t) ∧
      (lookUpSalesForth env opts original.length ctx'
        (afterLater env opts ctx later original)).exit = .completed ∧
      (lookUpSalesForth env opts (later ++ original).length ctx
          (later ++ original)).trades.drop later.length =
        (lookUpSalesForth env opts original.length ctx'
          (afterLater env opts ctx later original)).trades := by
  rw [List.length_append] at hexit ⊢
  obtain ⟨-, hrest, htrades⟩ := lookUpSalesForth_add later.length
    original.length ctx (later ++ original) hexit
  obtain ⟨hbounds, _, hqty⟩ := lookUpSalesForth_allocation env opts ctx
    later.length (later ++ original) hbound
  have hlen := hqty.trx.length_eq
  rw [List.length_append] at hlen
  refine ⟨_, fun hctx => lookUpSalesForth_never later.length hctx _,
    fun t ht => hbounds t (List.mem_of_mem_drop ht), hrest, ?_⟩
  rw [htrades, List.drop_left' (by rw [List.length_take]; omega)]
  rfl

theorem lookUpTrades_completed {trades : List Trade}
    (hexit : (lookUpTrades env opts ctx trades).exit = .completed) :
    (lookUpSales env opts ctx trades).exit = .completed ∧
      (lookUpTrades env opts ctx trades).trades =
        (lookUpSales env opts ctx trades).trades.map
          (markUnrealized opts) := by
  simp only [lookUpTrades] at hexit ⊢
  cases hrun : (lookUpSales env opts ctx trades).exit with
  | completed => exact ⟨rfl, rfl⟩
  | interrupted => simp [hrun] at hexit
  | thrown err => simp [hrun] at hexit

/-- Causality.  When the sales are looked up from the oldest on, later
transactions change nothing about any sale before them: not the lots it is
matched with, its cost or its gain.  When they are looked up from the newest
on, this holds for the sales of each asset whose lots in the original list the
later sales leave alone, as they do when none of them sells it. -/
theorem lookUpTrades_causal (env : TaxEnv) (opts : LookUpOpts)
    (ctx : LookUpCtx) (later original : List Trade)
    (hctx : ctx.pollsLeft = none)
    (hbound : ∀ t ∈ later ++ original, TradeBound t)
    (hwhole : (lookUpTrades env opts ctx (later ++ original)).exit =
      .completed)
    (horiginal : (lookUpTrades env opts ctx original).exit = .completed) :
    let before := (lookUpTrades env opts ctx original).trades
    let after := (lookUpTrades env opts ctx (later ++ original)).trades.drop
      later.length
    (opts.isBackIterativeSaleLookUp = true →
      after.map (·.toSaleBook) = before.map (·.toSaleBook)) ∧
    (opts.isBackIterativeSaleLookUp = false → ∀ asset,
      (∀ t ∈ later, t.sells env = true → t.soldAsset env ≠ asset) ∨
        List.Forall₂ (LotKept env asset) original
          (afterLater env opts ctx later original) →
      List.Forall₂ (fun t t' : Trade => t.soldAsset env = asset →
        t'.toSaleBook = t.toSaleBook) before after) := by
  intro before after
  obtain ⟨hwholeRun, hwholeTrades⟩ := lookUpTrades_completed hwhole
  obtain ⟨horiginalRun, horiginalTrades⟩ := lookUpTrades_completed horiginal
  have hbefore : before = _ := horiginalTrades
  have hafter : after = ((lookUpSales env opts ctx
      (later ++ original)).trades.drop later.length).map
        (markUnrealized opts) := by
    rw [List.map_drop, ← hwholeTrades]
  rw [hbefore, hafter, List.map_map, List.map_map]
  have hmark : (fun t : Trade => t.toSaleBook) ∘ markUnrealized opts =
      fun t => t.toSaleBook := funext markUnrealized_saleBook
  constructor
  · intro hback
    simp only [lookUpSales, hback, ↓reduceIte] at hwholeRun ⊢
    rw [hmark]
    exact (lookUpSalesBack_append ctx later original hbound hwholeRun).2
  · intro hforth asset hlots
    simp only [lookUpSales, hforth, Bool.false_eq_true, ↓reduceIte]
      at hwholeRun horiginalRun ⊢
    have hkept := hlots.elim (lotKept_afterLater ctx later original hbound) id
    have htwin := twin_afterLater ctx later original hbound hkept
    obtain ⟨ctx', hctx', hbound', hrest, hdrop⟩ :=
      lookUpSalesForth_append ctx later original hbound hwholeRun
    have hsales := lookUpSalesForth_twin original.length hctx (hctx' hctx)
      htwin (fun t ht => hbound t (List.mem_append_right later ht)) hbound'
      horiginalRun hrest
    rw [hdrop, List.forall₂_map_left_iff, List.forall₂_map_right_iff]
    refine hsales.imp fun t t' h hasset => ?_
    rw [markUnrealized_saleBook, markUnrealized_saleBook]
    rw [markUnrealized_trx] at hasset
    exact h hasset

namespace CausalityWitness

/-- Dollars are the only fiat money. -/
def usdEnv : TaxEnv := ⟨["USD"], fun _ => ("", "")⟩

def fifo : LookUpOpts :=
  { isBackIterativeSaleLookUp := true, isBackIterativeBuyLookUp := true }

def btcTrade (mtsCreate : ℕ) (amount price : ℚ) : Trade :=
  { symbol := "tBTCUSD", mtsCreate, firstSymb := "BTC", lastSymb := "USD"
    execAmount := some amount, execPrice := some price
    firstSymbPriceUsd := some price, lastSymbPriceUsd := some 1 }

/-- Newest first: one bitcoin of two is sold. -/
def original : List Trade :=
  [btcTrade 3 (-1) 300, btcTrade 2 1 200, btcTrade 1 1 100]

/-- The other one is sold later. -/
def later : List Trade := [btcTrade 4 (-1) 400]

theorem bound : ∀ t ∈ later ++ original, TradeBound t := by
  simp only [later, original, List.cons_append, List.nil_append,
    List.forall_mem_cons, List.not_mem_nil, false_implies, implies_true,
    and_true]
  refine ⟨?_, ?_, ?_, ?_⟩ <;>
    exact Unfilled.tradeBound ⟨rfl, rfl, rfl, rfl, rfl⟩

theorem lookUpTrades_causal_of_later :
    ((lookUpTrades usdEnv fifo {} (later ++ original)).trades.drop 1).map
        (·.toSaleBook) =
      (lookUpTrades usdEnv fifo {} original).trades.map (·.toSaleBook) :=
  (lookUpTrades_causal usdEnv fifo {} later original rfl bound
    (by decide +kernel) (by decide +kernel)).1 rfl

/-- From the newest sale on, the later sale takes the lot of the earlier one,
whose cost falls from 200 to 100 dollars. -/
theorem lookUpTrades_lifo_not_causal :
    (∀ t ∈ original, ∀ t' ∈ later, t.mtsCreate < t'.mtsCreate) ∧
    (lookUpTrades usdEnv {} {} original).saleTradesWithRealizedProfit.map
        (fun entry => (entry.mtsAcquired, entry.mtsSold, entry.cost)) =
      [(some 2, some 3, some 200)] ∧
    (lookUpTrades usdEnv {} {}
        (later ++ original)).saleTradesWithRealizedProfit.map
          (fun entry => (entry.mtsAcquired, entry.mtsSold, entry.cost)) =
      [(some 2, some 4, some 200), (some 1, some 3, some 100)] :=
  ⟨by decide +kernel, by decide +kernel, by decide +kernel⟩

end CausalityWitness

end ReportsFramework
