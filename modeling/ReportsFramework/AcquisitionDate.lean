/-
The acquisition date of a sale: the first of the lots that it consumes.
-/
import ReportsFramework.LookUpFills

namespace ReportsFramework

open Trx

section Dates

/-- Of a list in either order, the earlier of the first and the last date is the first of
all. -/
theorem mtsAcquired_isLeast {dates : List ℕ}
    (hsorted : dates.Pairwise (· ≥ ·) ∨ dates.Pairwise (· ≤ ·)) (hne : dates ≠ []) :
    ∃ acquired, mtsAcquired dates = some acquired ∧ IsLeast {mts | mts ∈ dates} acquired := by
  obtain ⟨first, rest, rfl⟩ := List.exists_cons_of_ne_nil hne
  have hlast : (first :: rest).getLast? = some ((first :: rest).getLast hne) :=
    List.getLast?_eq_some_getLast hne
  have hmem : (first :: rest).getLast hne ∈ first :: rest := List.getLast_mem hne
  rcases hsorted with hdesc | hasc
  · have hleast : ∀ mts ∈ first :: rest, (first :: rest).getLast hne ≤ mts := by
      intro mts hmts
      rcases List.mem_iff_getElem.mp hmts with ⟨k, hk, rfl⟩
      rw [List.getLast_eq_getElem]
      rcases Nat.lt_or_ge k ((first :: rest).length - 1) with hlt | hge
      · exact List.pairwise_iff_getElem.mp hdesc _ _ hk _ hlt
      · have : k = (first :: rest).length - 1 := by omega
        simp only [this, le_refl]
    have hle := hleast first List.mem_cons_self
    refine ⟨(first :: rest).getLast hne, ?_, hmem, hleast⟩
    unfold mtsAcquired
    rw [hlast, List.head?_cons]
    dsimp only
    split_ifs with hlt
    · rfl
    · rw [le_antisymm hle (not_lt.mp hlt)]
  · obtain ⟨hhead, -⟩ := List.pairwise_cons.mp hasc
    have hleast : ∀ mts ∈ first :: rest, first ≤ mts := by
      intro mts hmts
      rcases List.mem_cons.mp hmts with rfl | hmts
      · exact le_rfl
      · exact hhead mts hmts
    refine ⟨first, ?_, List.mem_cons_self, hleast⟩
    unfold mtsAcquired
    rw [hlast, List.head?_cons]
    exact if_neg (not_lt.mpr (hleast _ hmem))

end Dates

section Matched

/-- The dates of the lots from which a row has drawn. -/
def matchedLots (row : List LotFill) : List ℕ :=
  (row.filter (0 < ·.qty)).map (·.before.mtsCreate)

variable {env : TaxEnv} {opts : LookUpOpts} {sale : Sale} {ctx : LookUpCtx} {trade lot : Trade}

theorem matchedLots_inLookUpOrder (row : List LotFill) :
    matchedLots (inLookUpOrder opts row) = inLookUpOrder opts (matchedLots row) := by
  unfold matchedLots inLookUpOrder
  split
  · rw [List.filter_reverse, List.map_reverse]
  · rfl

theorem matchedLots_untouched (lots : List Trade) :
    matchedLots (lots.map LotFill.untouched) = [] := by
  simp [matchedLots, LotFill.untouched, LotFill.qty, List.filter_eq_nil_iff]

theorem matchedLots_cons (fill : LotFill) (row : List LotFill) :
    matchedLots (fill :: row) = matchedLots [fill] ++ matchedLots row := by
  simp [matchedLots, ← List.map_append, ← List.filter_append]

/-- A sale that is not flagged is not covered yet. -/
def SaleOpen (amount : ℚ) (trade : Trade) : Prop :=
  trade.isSaleTrxHistFilled = false → trade.saleFilledAmount < amount

theorem boughtAmount_pos {trx : Trx} (hopts : opts.isBuyTradesWithUnrealizedProfitRequired = false)
    (h : trx.canBeLookedUp opts = true) : 0 < trx.boughtAmount ∧ 0 < trx.soldAmount := by
  simp only [canBeLookedUp, hopts, Bool.false_or, Bool.and_eq_true, bne_iff_ne, ne_eq] at h
  obtain ⟨⟨⟨-, hprice⟩, -⟩, hamount⟩ := h
  unfold boughtAmount soldAmount
  constructor <;> split_ifs <;> positivity

theorem fillLot_marks (opts : LookUpOpts) (sale : Sale) (price : ℚ) (trade lot : Trade) :
    (fillLot opts sale price trade lot).1.noPriceUsd = trade.noPriceUsd ∧
      (fillLot opts sale price trade lot).1.buyTrxsForRealizedProfit =
        trade.buyTrxsForRealizedProfit := by
  simp only [fillLot]
  split_ifs <;> exact ⟨rfl, rfl⟩

/-- What is filled of an open sale stays open. -/
theorem fillLot_saleOpen {price : ℚ} :
    SaleOpen sale.amount (fillLot opts sale price trade lot).1 := by
  intro hflag
  rw [fillLot_isSaleTrxHistFilled, Bool.or_eq_false_iff, decide_eq_false_iff_not, not_le] at hflag
  rw [fillLot_saleFilledAmount, fillQty, min_eq_left hflag.2.le]
  linarith [hflag.2]

/-- The step lemma of the dates: a lot is noted if something of it is consumed, unless the
sale loses its price. -/
theorem matchLot_matchedLots (env : TaxEnv) (ctx : LookUpCtx)
    (hopts : opts.isBuyTradesWithUnrealizedProfitRequired = false)
    (hopen : SaleOpen sale.amount trade) (hflag : trade.isSaleTrxHistFilled = false)
    (hlot : LotOpen lot) (feeUsd : ℚ) :
    (matchLot env opts sale ctx trade lot).trade.noPriceUsd = true ∨
      (matchLot env opts sale ctx trade lot).trade.noPriceUsd = trade.noPriceUsd ∧
        SaleOpen sale.amount (matchLot env opts sale ctx trade lot).trade ∧
        (matchLot env opts sale ctx trade lot).trade.buyTrxsForRealizedProfit =
          trade.buyTrxsForRealizedProfit ++
            matchedLots [⟨lot, (matchLot env opts sale ctx trade lot).lots, feeUsd⟩] := by
  cases htouch : lotTouches env opts sale lot with
  | false =>
    right
    obtain ⟨trx, isBuyTrx, htrade, hlots, -, -⟩ := matchLot_of_not_touches ctx trade htouch
    rw [htrade, hlots]
    refine ⟨rfl, hopen, ?_⟩
    simp [matchedLots, LotFill.qty]
  | true =>
    rw [matchLot_of_touches ctx trade htouch]
    cases hprice : lot.buyPriceUsd opts with
    | none => exact .inl rfl
    | some price =>
      right
      have hcan : lot.isBuyTrxHistFilled = false ∧ lot.canBeLookedUp opts = true := by
        simp only [lotTouches, Bool.and_eq_true, Bool.not_eq_true'] at htouch
        exact htouch.1.1.1
      have hrest := sub_pos.mpr (hlot hcan.1 (boughtAmount_pos hopts hcan.2).1.ne')
      have hsaleRest := sub_pos.mpr (hopen hflag)
      have hqty : 0 < fillQty sale (trade.noting lot) (lot.asLot env) := lt_min hrest hsaleRest
      obtain ⟨hnoPrice, hnoted⟩ := fillLot_marks opts sale price (trade.noting lot)
        (lot.asLot env)
      refine ⟨hnoPrice, fillLot_saleOpen, ?_⟩
      have hfill : 0 < LotFill.qty ⟨lot,
          (fillLot opts sale price (trade.noting lot) (lot.asLot env)).2, feeUsd⟩ := by
        unfold LotFill.qty
        rw [fillLot_buyFilledAmount]
        have hkept : (lot.asLot env).buyFilledAmount = lot.buyFilledAmount := rfl
        rw [hkept, add_sub_cancel_left]
        exact hqty
      rw [hnoted]
      simp only [matchedLots, List.filter_cons, hfill, decide_true, ↓reduceIte, List.filter_nil,
        List.map_cons, List.map_nil]
      rfl

theorem matchLot_noPriceUsd (h : trade.noPriceUsd = true) :
    (matchLot env opts sale ctx trade lot).trade.noPriceUsd = true := by
  cases htouch : lotTouches env opts sale lot with
  | false =>
    obtain ⟨trx, isBuyTrx, htrade, -, -, -⟩ := matchLot_of_not_touches ctx trade htouch
    rw [htrade]
    exact h
  | true =>
    rw [matchLot_of_touches ctx trade htouch]
    cases lot.buyPriceUsd opts with
    | none => rfl
    | some price =>
        exact (fillLot_marks opts sale price (trade.noting lot) (lot.asLot env)).1.trans h

/-- A sale that has lost its price does not get it back. -/
theorem lookUpLots_noPriceUsd {lots : List Trade} (h : trade.noPriceUsd = true) :
    (lookUpLots env opts sale ctx trade lots).trade.noPriceUsd = true := by
  induction lots generalizing ctx trade with
  | nil => exact h
  | cons lot rest ih =>
    simp only [lookUpLots]
    split_ifs
    · exact h
    · exact h
    · cases (matchLot env opts sale ctx.polled trade lot).exit with
      | completed => exact ih (matchLot_noPriceUsd h)
      | interrupted => exact matchLot_noPriceUsd h
      | thrown err => exact matchLot_noPriceUsd h

/-- The run lemma of the dates. -/
theorem lookUpLots_matchedLots (env : TaxEnv) (ctx : LookUpCtx)
    (hopts : opts.isBuyTradesWithUnrealizedProfitRequired = false)
    (hopen : SaleOpen sale.amount trade) {lots : List Trade} (hlots : ∀ lot ∈ lots, LotOpen lot) :
    (lookUpLots env opts sale ctx trade lots).trade.noPriceUsd = true ∨
      (lookUpLots env opts sale ctx trade lots).trade.buyTrxsForRealizedProfit =
        trade.buyTrxsForRealizedProfit ++ matchedLots (lotFills env opts sale ctx trade lots) := by
  induction lots generalizing ctx trade with
  | nil => exact .inr (List.append_nil _).symm
  | cons lot rest ih =>
    obtain ⟨hlot, hrest⟩ := List.forall_mem_cons.mp hlots
    simp only [lookUpLots, lotFills]
    cases hctx : ctx.hasInterrupted with
    | true =>
      right
      simp only [Bool.true_or, ↓reduceIte, matchedLots_untouched, List.append_nil]
    | false =>
      cases hflag : trade.isSaleTrxHistFilled with
      | true =>
        right
        simp only [Bool.or_true, Bool.false_eq_true, ↓reduceIte, matchedLots_untouched,
          List.append_nil]
      | false =>
        simp only [Bool.or_self, Bool.false_eq_true, ↓reduceIte]
        rw [matchedLots_cons]
        have hstep := matchLot_matchedLots env ctx.polled hopts hopen hflag hlot
          ((matchLot env opts sale ctx.polled trade lot).trade.cumulativeTrxFeesUsd -
            trade.cumulativeTrxFeesUsd)
        rcases hstep with hnone | ⟨-, hopen', hnoted⟩
        · left
          cases (matchLot env opts sale ctx.polled trade lot).exit with
          | completed => exact lookUpLots_noPriceUsd hnone
          | interrupted => exact hnone
          | thrown err => exact hnone
        · cases (matchLot env opts sale ctx.polled trade lot).exit with
          | completed =>
            rcases ih _ hopen' hrest with hnone | hrestNoted
            · exact .inl hnone
            · right
              rw [hrestNoted, hnoted, List.append_assoc]
          | interrupted =>
            right
            simp only [matchedLots_untouched, List.append_nil]
            exact hnoted
          | thrown err =>
            right
            simp only [matchedLots_untouched, List.append_nil]
            exact hnoted

end Matched

section Turn

variable {env : TaxEnv} {opts : LookUpOpts} {ctx : LookUpCtx} {trade : Trade} {older : List Trade}

/-- A trade that may be sold has not been looked at as a sale. -/
def SaleFresh (trade : Trade) : Prop :=
  trade.isBuyTradesWithUnrealizedProfitForPrevPeriod = false →
    trade.isSaleTrx = false ∧ trade.saleFilledAmount = 0 ∧ trade.buyTrxsForRealizedProfit = []

/-- The dates of a reported sale are those of its row. -/
def IsDated (trade : Trade) (row : List LotFill) : Prop :=
  trade.isBuyTradesWithUnrealizedProfitForPrevPeriod = false → trade.isSaleTrx = true →
    trade.noPriceUsd = false → matchedLots row ≠ [] →
      ∃ acquired, trade.mtsAcquiredForSaleTrx = some acquired ∧
        trade.mtsSoldForSaleTrx = some trade.mtsCreate ∧
        IsLeast {mts | mts ∈ matchedLots row} acquired ∧ acquired ≤ trade.mtsCreate

def NewestFirst (trades : List Trade) : Prop :=
  (trades.map (·.mtsCreate)).Pairwise (· ≥ ·)

theorem matchedLots_sublist (row : List LotFill) :
    (matchedLots row).Sublist ((row.map LotFill.before).map (·.mtsCreate)) := by
  unfold matchedLots
  rw [List.map_map]
  exact List.filter_sublist.map _

theorem openSale_trade {trade₁ : Trade} {ctx₁ : LookUpCtx} {sale : Sale}
    (hopen : openSale env opts ctx trade = (trade₁, ctx₁, .opened sale)) :
    ∃ fee, trade₁ = (trade.asSale env).charged fee := by
  rw [openSale_eq] at hopen
  split at hopen
  · cases hopen
  split at hopen
  · cases hopen
  split at hopen
  · cases hopen
  split at hopen
  · cases hopen
  · cases hopen
    exact ⟨_, rfl⟩

theorem matchedLots_ordered {lots : List Trade} {row : List LotFill}
    (hbefore : row.map LotFill.before = buyLookUpOrder opts lots) (hsorted : NewestFirst lots) :
    (matchedLots row).Pairwise (· ≥ ·) ∨ (matchedLots row).Pairwise (· ≤ ·) := by
  have hsub := matchedLots_sublist row
  rw [hbefore] at hsub
  unfold buyLookUpOrder at hsub
  split at hsub
  · right
    apply List.Pairwise.sublist hsub
    rw [List.map_reverse]
    exact List.pairwise_reverse.mpr hsorted
  · left
    exact List.Pairwise.sublist hsub hsorted

/-- One turn of the sale loop that comes to its end. -/
theorem lookUpSale_isDated (hopts : opts.isBuyTradesWithUnrealizedProfitRequired = false)
    (hfit : ∀ t ∈ trade :: older, TradeFit t) (hfresh : SaleFresh trade)
    (hsorted : NewestFirst (trade :: older))
    (hexit : (lookUpSale env opts ctx trade older).exit = .completed) :
    IsDated (lookUpSale env opts ctx trade older).trade (saleRow env opts ctx trade older) := by
  obtain ⟨htrade, holder⟩ := List.forall_mem_cons.mp hfit
  have hnewest : ∀ mts ∈ older.map (·.mtsCreate), mts ≤ trade.mtsCreate :=
    (List.pairwise_cons.mp hsorted).1
  have holderSorted : NewestFirst older := (List.pairwise_cons.mp hsorted).2
  unfold lookUpSale at hexit ⊢
  unfold saleRow
  cases hctx : ctx.hasInterrupted with
  | true => simp [hctx] at hexit
  | false =>
    rcases hopen : openSale env opts ctx.polled trade with ⟨trade₁, ctx₁, opening⟩
    simp only [hctx, hopen, Bool.false_eq_true, ↓reduceIte] at hexit ⊢
    cases opening with
    | skipped =>
      intro _ _ _ hne
      exact absurd (matchedLots_untouched older) hne
    | thrown err => cases hexit
    | opened sale =>
      have hopened : (openSale env opts ctx.polled trade).2.2 = .opened sale := by rw [hopen]
      obtain ⟨hcan, -, hprev, -, hamount, -⟩ := openSale_opened hopened
      obtain ⟨-, hfilled, hnoted⟩ := hfresh hprev
      obtain ⟨fee, rfl⟩ := openSale_trade hopen
      have hsaleOpen : SaleOpen sale.amount ((trade.asSale env).charged fee) := by
        intro _
        change trade.saleFilledAmount < sale.amount
        rw [hfilled, hamount]
        exact (boughtAmount_pos hopts hcan).2
      have hlots : ∀ lot ∈ buyLookUpOrder opts older, LotOpen lot :=
        fun lot hlot => (holder lot (mem_buyLookUpOrder.mp hlot)).isOpen
      have hscanned := lookUpLots_scanned env opts ctx₁ (buyLookUpOrder opts older)
        (openSale_saleBound htrade.bound.sale hopen)
        fun lot hlot => (holder lot (mem_buyLookUpOrder.mp hlot)).bound.lot
      have hdates := lookUpLots_matchedLots env ctx₁ hopts hsaleOpen hlots
      simp only at hexit ⊢
      rw [if_pos hexit]
      generalize hrow : lotFills env opts sale ctx₁ ((trade.asSale env).charged fee)
        (buyLookUpOrder opts older) = row at hdates ⊢
      have hbefore : row.map LotFill.before = buyLookUpOrder opts older := by
        rw [← hrow]
        exact map_before_lotFills _ _ _
      have hmem : ∀ mts, mts ∈ matchedLots (inLookUpOrder opts row) ↔ mts ∈ matchedLots row := by
        intro mts
        rw [matchedLots_inLookUpOrder]
        exact mem_inLookUpOrder
      intro _ _ hpriced hne
      rcases hdates with hnone | hdates
      · exact absurd hnone (ne_true_of_eq_false hpriced)
      have hall : matchedLots row ≠ [] := by
        rintro hnil
        rw [matchedLots_inLookUpOrder, hnil] at hne
        exact hne (by simp [inLookUpOrder])
      obtain ⟨acquired, hacquired, hleast⟩ :=
        mtsAcquired_isLeast (matchedLots_ordered hbefore holderSorted) hall
      have hbuyTrxs : ((trade.asSale env).charged fee).buyTrxsForRealizedProfit = [] := hnoted
      rw [hbuyTrxs, List.nil_append] at hdates
      refine ⟨acquired, ?_, rfl, ?_, ?_⟩
      · exact (congrArg mtsAcquired hdates).trans hacquired
      · simp only [hmem]
        exact hleast
      · have hsold : (lookUpLots env opts sale ctx₁ ((trade.asSale env).charged fee)
            (buyLookUpOrder opts older)).trade.mtsCreate = trade.mtsCreate := by
          rw [hscanned.trx]
          rfl
        have hlot := (matchedLots_sublist row).subset hleast.1
        rw [hbefore] at hlot
        obtain ⟨lot, hlot, hmts⟩ := List.mem_map.mp hlot
        exact (hnewest acquired
          (List.mem_map.mpr ⟨lot, mem_buyLookUpOrder.mp hlot, hmts⟩)).trans hsold.ge

end Turn

section Run

variable {env : TaxEnv} {opts : LookUpOpts} {ctx : LookUpCtx} {trade : Trade} {older : List Trade}

/-- What a look-up takes: trades within their amounts, that may be sold only if they have
not been looked at as sales, newest first. -/
structure LookUpInput (trades : List Trade) : Prop where
  fit : ∀ t ∈ trades, TradeFit t
  fresh : ∀ t ∈ trades, SaleFresh t
  sorted : NewestFirst trades

theorem LookUpInput.tail (h : LookUpInput (trade :: older)) : LookUpInput older where
  fit := (List.forall_mem_cons.mp h.fit).2
  fresh := (List.forall_mem_cons.mp h.fresh).2
  sorted := (List.pairwise_cons.mp h.sorted).2

/-- A trade keeps the date of its sale, and its freshness, while it is drawn on as a lot. -/
theorem Drawn.isDated {asset : String} {lot lot' : Trade} (h : Drawn env opts asset lot lot')
    {row : List LotFill} (hdated : IsDated lot row) : IsDated lot' row := by
  have hmts := h.trx.congr (·.mtsCreate) fun _ => rfl
  unfold IsDated at hdated ⊢
  rw [h.flag, h.saleBook, ← hmts]
  exact hdated

theorem Drawn.saleFresh {asset : String} {lot lot' : Trade} (h : Drawn env opts asset lot lot')
    (hfresh : SaleFresh lot) : SaleFresh lot' := by
  unfold SaleFresh at hfresh ⊢
  rw [h.flag, h.saleBook]
  exact hfresh

theorem map_mtsCreate_of_sameTrx {trades trades' : List Trade}
    (h : List.Forall₂ (fun trade trade' => SameTrx env trade.toTrx trade'.toTrx) trades trades') :
    trades'.map (·.mtsCreate) = trades.map (·.mtsCreate) := by
  induction h with
  | nil => rfl
  | cons hhead _ ih =>
    rw [List.map_cons, List.map_cons, ih, ← hhead.congr (·.mtsCreate) fun _ => rfl]

theorem NewestFirst.of_sameTrx {trades trades' : List Trade} (h : NewestFirst trades)
    (htrx : List.Forall₂ (fun trade trade' => SameTrx env trade.toTrx trade'.toTrx) trades
      trades') :
    NewestFirst trades' := by
  unfold NewestFirst
  rw [map_mtsCreate_of_sameTrx htrx]
  exact h

/-- The trades behind a sale are input for the next turn. -/
theorem LookUpInput.lots (h : LookUpInput (trade :: older)) (ctx : LookUpCtx) :
    LookUpInput (lookUpSale env opts ctx trade older).lots := by
  have htail := h.tail
  have hdrawn := (lookUpSale_scanned env opts ctx
    (h.fit trade List.mem_cons_self).bound.sale
    fun lot hlot => (htail.fit lot hlot).bound.lot).drawn
  constructor
  · exact (List.forall_mem_cons.mp (lookUpSale_fit h.fit)).2
  · intro lot' hlot'
    obtain ⟨lot, hlot, hdraw⟩ := mem_of_forall₂ hdrawn hlot'
    exact hdraw.saleFresh (htail.fresh lot hlot)
  · exact htail.sorted.of_sameTrx (hdrawn.imp fun _ _ hdraw => hdraw.trx)

theorem Drawn.forall₂_isDated {asset : String} {lots lots' : List Trade}
    {rows : List (List LotFill)} (hdrawn : List.Forall₂ (Drawn env opts asset) lots lots')
    (hdated : List.Forall₂ IsDated lots rows) : List.Forall₂ IsDated lots' rows := by
  have hflip : List.Forall₂ (fun lot' lot => Drawn env opts asset lot lot') lots' lots :=
    hdrawn.flip
  exact forall₂_trans hflip hdated fun _ _ _ hdraw hdate => hdraw.isDated hdate

/-- The run lemma of the sale loop from the oldest sale on. -/
theorem lookUpSalesBack_isDated (hopts : opts.isBuyTradesWithUnrealizedProfitRequired = false)
    (ctx : LookUpCtx) {trades : List Trade} (h : LookUpInput trades)
    (hexit : (lookUpSalesBack env opts ctx trades).exit = .completed) :
    List.Forall₂ IsDated (lookUpSalesBack env opts ctx trades).trades
      (fillRowsBack env opts ctx trades) := by
  induction trades with
  | nil => exact .nil
  | cons trade older ih =>
    have hrunFit := (fillRowsBack_fair env opts ctx h.tail.fit).1
    obtain ⟨-, qty, hrun⟩ := lookUpSalesBack_allocation env opts ctx older
      fun t ht => (h.tail.fit t ht).bound
    have hturn : ∀ t ∈ trade :: (lookUpSalesBack env opts ctx older).trades, TradeFit t :=
      List.forall_mem_cons.mpr ⟨h.fit trade List.mem_cons_self, hrunFit⟩
    have hsorted : NewestFirst (trade :: (lookUpSalesBack env opts ctx older).trades) :=
      h.sorted.of_sameTrx (.cons (SameTrx.refl _) hrun.trx)
    have hdated := ih h.tail
    simp only [lookUpSalesBack, fillRowsBack] at hexit ⊢
    cases hrunExit : (lookUpSalesBack env opts ctx older).exit with
    | completed =>
      simp only [hrunExit] at hexit ⊢
      have hscan := lookUpSale_scanned env opts (lookUpSalesBack env opts ctx older).ctx
        (h.fit trade List.mem_cons_self).bound.sale fun lot hlot => (hrunFit lot hlot).bound.lot
      exact .cons (lookUpSale_isDated hopts hturn (h.fresh trade List.mem_cons_self) hsorted hexit)
        (Drawn.forall₂_isDated hscan.drawn (hdated hrunExit))
    | interrupted => simp [hrunExit] at hexit
    | thrown err => simp [hrunExit] at hexit

/-- The run lemma of the sale loop from the newest sale on. -/
theorem lookUpSalesForth_isDated (hopts : opts.isBuyTradesWithUnrealizedProfitRequired = false)
    (ctx : LookUpCtx) {trades : List Trade} (h : LookUpInput trades)
    (hexit : (lookUpSalesForth env opts trades.length ctx trades).exit = .completed) :
    List.Forall₂ IsDated (lookUpSalesForth env opts trades.length ctx trades).trades
      (fillRowsForth env opts trades.length ctx trades) := by
  generalize hn : trades.length = n at hexit ⊢
  induction n generalizing ctx trades with
  | zero =>
    obtain rfl := List.length_eq_zero_iff.mp hn
    exact .nil
  | succ n ih =>
    cases trades with
    | nil => cases hn
    | cons trade older =>
      have hscan := lookUpSale_scanned env opts ctx (h.fit trade List.mem_cons_self).bound.sale
        fun lot hlot => (h.tail.fit lot hlot).bound.lot
      have hlength : (lookUpSale env opts ctx trade older).lots.length = n := by
        rw [← hscan.drawn.length_eq]
        exact Nat.succ.inj hn
      have hdated := ih (lookUpSale env opts ctx trade older).ctx (h.lots ctx) hlength
      simp only [lookUpSalesForth, fillRowsForth] at hexit ⊢
      cases hscanExit : (lookUpSale env opts ctx trade older).exit with
      | completed =>
        simp only [hscanExit] at hexit ⊢
        exact .cons (lookUpSale_isDated hopts h.fit (h.fresh trade List.mem_cons_self) h.sorted
          hscanExit) (hdated hexit)
      | interrupted => simp [hscanExit] at hexit
      | thrown err => simp [hscanExit] at hexit

theorem lookUpSales_isDated (hopts : opts.isBuyTradesWithUnrealizedProfitRequired = false)
    (ctx : LookUpCtx) {trades : List Trade} (h : LookUpInput trades)
    (hexit : (lookUpSales env opts ctx trades).exit = .completed) :
    List.Forall₂ IsDated (lookUpSales env opts ctx trades).trades
      (fillRows env opts ctx trades) := by
  unfold lookUpSales at hexit ⊢
  unfold fillRows
  split at hexit
  next hback =>
    rw [if_pos hback, if_pos hback]
    exact lookUpSalesBack_isDated hopts ctx h hexit
  next hforth =>
    rw [if_neg hforth, if_neg hforth]
    exact lookUpSalesForth_isDated hopts ctx h hexit

end Run

section Report

variable {env : TaxEnv} {opts : LookUpOpts} {ctx : LookUpCtx} {trades : List Trade}

/-- The entry that the report has of trade `i`. -/
def LookUpResult.entryOf (opts : LookUpOpts) (result : LookUpResult) (i : ℕ) : Option TaxEntry :=
  match result.exit with
  | .completed => result.trades[i]?.bind (pushedEntry opts)
  | _ => none

theorem markUnrealized_of_not_required
    (hopts : opts.isBuyTradesWithUnrealizedProfitRequired = false) (trade : Trade) :
    markUnrealized opts trade = trade := by
  simp [markUnrealized, isUnrealized, hopts]

theorem pushedEntry_of_required (hopts : opts.isBuyTradesWithUnrealizedProfitRequired = true)
    (trade : Trade) : pushedEntry opts trade = none := by
  simp [pushedEntry, hopts]

theorem entryOf_eq_some {i : ℕ} {entry : TaxEntry}
    (h : (lookUpTrades env opts ctx trades).entryOf opts i = some entry) :
    opts.isBuyTradesWithUnrealizedProfitRequired = false ∧
      (lookUpSales env opts ctx trades).exit = .completed ∧
      ∃ trade, (lookUpSales env opts ctx trades).trades[i]? = some trade ∧
        pushedEntry opts trade = some entry := by
  unfold LookUpResult.entryOf lookUpTrades at h
  cases hexit : (lookUpSales env opts ctx trades).exit with
  | completed =>
    simp only [hexit] at h
    obtain ⟨trade, htrade, hentry⟩ := Option.bind_eq_some_iff.mp h
    have hopts : opts.isBuyTradesWithUnrealizedProfitRequired = false := by
      by_contra hrequired
      rw [pushedEntry_of_required (by simpa using hrequired)] at hentry
      cases hentry
    refine ⟨hopts, rfl, trade, ?_, hentry⟩
    rw [List.getElem?_map, Option.map_eq_some_iff] at htrade
    obtain ⟨trade', htrade', hmark⟩ := htrade
    rw [markUnrealized_of_not_required hopts] at hmark
    rw [htrade', hmark]
  | interrupted => simp [hexit] at h
  | thrown err => simp [hexit] at h

/-- The report consists of the entries of the trades. -/
theorem mem_saleTradesWithRealizedProfit {entry : TaxEntry} :
    entry ∈ (lookUpTrades env opts ctx trades).saleTradesWithRealizedProfit ↔
      ∃ i, (lookUpTrades env opts ctx trades).entryOf opts i = some entry := by
  unfold LookUpResult.entryOf lookUpTrades
  have hpushed : ∀ trade,
      pushedEntry opts (markUnrealized opts trade) = pushedEntry opts trade := by
    intro trade
    cases hopts : opts.isBuyTradesWithUnrealizedProfitRequired with
    | true => rw [pushedEntry_of_required hopts, pushedEntry_of_required hopts]
    | false => rw [markUnrealized_of_not_required hopts]
  cases hexit : (lookUpSales env opts ctx trades).exit with
  | completed =>
    simp only [hexit, List.mem_filterMap, List.getElem?_map]
    constructor
    · rintro ⟨trade, hmem, hentry⟩
      obtain ⟨i, htrade⟩ := List.mem_iff_getElem?.mp hmem
      exact ⟨i, by rw [htrade, Option.map_some, Option.bind_some, hpushed, hentry]⟩
    · rintro ⟨i, hentry⟩
      obtain ⟨trade', htrade', hentry⟩ := Option.bind_eq_some_iff.mp hentry
      obtain ⟨trade, htrade, rfl⟩ := Option.map_eq_some_iff.mp htrade'
      exact ⟨trade, List.mem_iff_getElem?.mpr ⟨i, htrade⟩, (hpushed trade).symm.trans hentry⟩
  | interrupted => simp [hexit]
  | thrown err => simp [hexit]

/-- The entry of a sale has the dates of the trade. -/
theorem pushedEntry_sale {trade : Trade} {entry : TaxEntry} {sold : ℕ}
    (h : pushedEntry opts trade = some entry) (hsold : entry.mtsSold = some sold) :
    trade.noPriceUsd = false ∧ trade.isBuyTradesWithUnrealizedProfitForPrevPeriod = false ∧
      trade.isSaleTrx = true ∧ entry.mtsAcquired = trade.mtsAcquiredForSaleTrx ∧
      trade.mtsSoldForSaleTrx = some sold := by
  unfold pushedEntry at h
  split at h
  · cases h
  next hpassed =>
    simp only [Bool.or_eq_true, Bool.and_eq_true, Bool.not_eq_true', not_or, not_and,
      Bool.not_eq_true, Bool.not_eq_false] at hpassed
    split at h
    · cases h
      cases hsold
    next hpayment =>
      cases h
      obtain ⟨⟨⟨hpriced, -⟩, hprev⟩, hsale⟩ := hpassed
      exact ⟨hpriced, hprev, (hsale (by simpa using hpayment)).1, rfl, hsold⟩

/-- A reported sale that has consumed something of a lot was acquired with the first such
lot, and not after it was sold. -/
theorem mtsAcquired_isLeast_matchedLots (env : TaxEnv) (opts : LookUpOpts) (ctx : LookUpCtx)
    (trades : List Trade) (h : LookUpInput trades) {i sold : ℕ} {entry : TaxEntry}
    {row : List LotFill} (hentry : (lookUpTrades env opts ctx trades).entryOf opts i = some entry)
    (hsold : entry.mtsSold = some sold) (hrow : (fillRows env opts ctx trades)[i]? = some row)
    (hmatched : matchedLots row ≠ []) :
    ∃ acquired, entry.mtsAcquired = some acquired ∧
      IsLeast {mts | mts ∈ matchedLots row} acquired ∧ acquired ≤ sold := by
  obtain ⟨hopts, hexit, trade, htrade, hpushed⟩ := entryOf_eq_some hentry
  obtain ⟨hpriced, hprev, hsale, hacquired, hmtsSold⟩ := pushedEntry_sale hpushed hsold
  have hdated := lookUpSales_isDated hopts ctx h hexit
  obtain ⟨hi, htrade⟩ := List.getElem?_eq_some_iff.mp htrade
  obtain ⟨hj, hrow⟩ := List.getElem?_eq_some_iff.mp hrow
  have hdate := hdated.get hi hj
  rw [List.get_eq_getElem, List.get_eq_getElem, htrade, hrow] at hdate
  obtain ⟨acquired, hacquired', hmtsSold', hleast, hle⟩ := hdate hprev hsale hpriced hmatched
  rw [hmtsSold] at hmtsSold'
  refine ⟨acquired, hacquired.trans hacquired', hleast, ?_⟩
  rw [Option.some.inj hmtsSold']
  exact hle

end Report

namespace AcquisitionWitness

def usdEnv : TaxEnv := ⟨["USD"], fun _ => ("", "")⟩

def btcTrade (mtsCreate : ℕ) (amount : ℚ) : Trade :=
  .ofTrx {
    symbol := "tBTCUSD", mtsCreate, firstSymb := "BTC", lastSymb := "USD"
    execAmount := some amount, execPrice := some 1
    firstSymbPriceUsd := some 1, lastSymbPriceUsd := some 1 }

/-- Newest first: three bitcoins are sold of two lots. -/
def trades : List Trade := [btcTrade 9 (-3), btcTrade 5 2, btcTrade 4 2]

theorem trades_input : LookUpInput trades := by
  constructor
  · intro t ht
    apply Unfilled.tradeFit
    simp only [trades, List.mem_cons, List.not_mem_nil, or_false] at ht
    rcases ht with rfl | rfl | rfl <;> exact ⟨rfl, rfl, rfl, rfl, rfl⟩
  · intro t ht _
    simp only [trades, List.mem_cons, List.not_mem_nil, or_false] at ht
    rcases ht with rfl | rfl | rfl <;> exact ⟨rfl, rfl, rfl⟩
  · unfold NewestFirst
    decide

def row : List LotFill :=
  (fillRows usdEnv {} {} trades).headD []

def entry : Option TaxEntry :=
  (lookUpTrades usdEnv {} {} trades).entryOf {} 0

/-- The newest lot is taken first, and the oldest one gives the date. -/
theorem mtsAcquired_isLeast_matchedLots_of_two_lots :
    matchedLots row = [5, 4] ∧ ∃ acquired, entry.bind (·.mtsAcquired) = some acquired ∧
      IsLeast {mts | mts ∈ matchedLots row} acquired ∧ acquired ≤ 9 := by
  have hmatched : matchedLots row = [5, 4] := by decide +kernel
  have hsold : entry.bind (·.mtsSold) = some 9 := by decide +kernel
  have hrow : (fillRows usdEnv {} {} trades)[0]? = some row := by rfl
  obtain ⟨e, hentry, hsold⟩ := Option.bind_eq_some_iff.mp hsold
  obtain ⟨acquired, hacquired, hleast, hle⟩ :=
    mtsAcquired_isLeast_matchedLots usdEnv {} {} trades trades_input hentry hsold hrow
      (by rw [hmatched]; exact List.cons_ne_nil _ _)
  refine ⟨hmatched, acquired, ?_, hleast, hle⟩
  rw [hentry]
  exact hacquired

end AcquisitionWitness

end ReportsFramework
