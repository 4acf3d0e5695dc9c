/-
Conservation of tax lots.  A run of `lookUpTrades`, under any options and
interrupted anywhere, allocates quantities of lots to sales; the two counters
that live on the trades are the row and column sums of that allocation.
-/
import Mathlib.Algebra.BigOperators.Intervals
import Mathlib.Tactic.Ring
import ReportsFramework.LookUpSpec

namespace ReportsFramework

open Trx Finset

/-- The `k`-th reading of a list, 0 past its end. -/
def readAt (trades : List Trade) (read : Trade → ℚ) (k : ℕ) : ℚ :=
  (trades.map read).getD k 0

@[simp] theorem readAt_cons_zero (trade : Trade) (rest : List Trade)
    (read : Trade → ℚ) : readAt (trade :: rest) read 0 = read trade := rfl

@[simp] theorem readAt_cons_succ (trade : Trade) (rest : List Trade)
    (read : Trade → ℚ) (k : ℕ) :
    readAt (trade :: rest) read (k + 1) = readAt rest read k := rfl

theorem readAt_of_length_le {trades : List Trade} {read : Trade → ℚ} {k : ℕ}
    (hk : trades.length ≤ k) : readAt trades read k = 0 := by
  simp [readAt, hk]

theorem sum_readAt (trades : List Trade) (read : Trade → ℚ) :
    ∑ k ∈ range trades.length, readAt trades read k =
      (trades.map read).sum := by
  induction trades with
  | nil => rfl
  | cons trade rest ih =>
      rw [List.length_cons, sum_range_succ']
      simp [ih, add_comm]

theorem readAt_congr {trades trades' : List Trade} (read : Trade → ℚ)
    (h : List.Forall₂ (fun t t' => read t = read t') trades trades') (k : ℕ) :
    readAt trades read k = readAt trades' read k := by
  have hmap : trades.map read = trades'.map read := by
    induction h with
    | nil => rfl
    | cons hhead _ ih => simp [hhead, ih]
  simp [readAt, hmap]

/-- Trades `i` and `j` of the list may stand in the relation of sale and
lot. -/
def MayCover (env : TaxEnv) (opts : LookUpOpts) (trades : List Trade)
    (i j : ℕ) : Prop :=
  i < j ∧ ∃ sale lot, trades[i]? = some sale ∧ trades[j]? = some lot ∧
    sale.sells env = true ∧ lot.isNoLot env = false ∧
    (lot.buyPriceUsd opts).isSome = true ∧
    sale.soldAsset env = lot.boughtAsset env

/-- From `before` to `after` the quantities `qty i j` of lots `j` went to
sales `i`. -/
structure Allocation (env : TaxEnv) (opts : LookUpOpts)
    (before after : List Trade) (qty : ℕ → ℕ → ℚ) : Prop where
  trx : List.Forall₂ (fun t t' : Trade => SameTrx env t.toTrx t'.toTrx)
    before after
  nonneg : ∀ i j, 0 ≤ qty i j
  support : ∀ i j, qty i j ≠ 0 → MayCover env opts before i j
  sold : ∀ i, readAt after (·.saleFilledAmount) i =
    readAt before (·.saleFilledAmount) i +
      ∑ j ∈ range before.length, qty i j
  bought : ∀ j, readAt after (·.buyFilledAmount) j =
    readAt before (·.buyFilledAmount) j +
      ∑ i ∈ range before.length, qty i j
  cost : ∀ i, readAt after (·.costForSaleTrxUsd) i =
    readAt before (·.costForSaleTrxUsd) i +
      ∑ j ∈ range before.length,
        qty i j * readAt before (fun lot => (lot.buyPriceUsd opts).getD 0) j

variable {env : TaxEnv} {opts : LookUpOpts} {ctx : LookUpCtx}
variable {before middle after : List Trade}

theorem Allocation.refl (trades : List Trade) :
    Allocation env opts trades trades fun _ _ => 0 where
  trx := List.forall₂_same.mpr fun _ _ => SameTrx.refl _
  nonneg := fun _ _ => le_rfl
  support := fun _ _ h => absurd rfl h
  sold := fun _ => by simp
  bought := fun _ => by simp
  cost := fun _ => by simp

theorem mayCover_of_sameTrx
    (htrx : List.Forall₂ (fun t t' : Trade => SameTrx env t.toTrx t'.toTrx)
      before after) {i j : ℕ} (h : MayCover env opts after i j) :
    MayCover env opts before i j := by
  obtain ⟨hij, sale', lot', hsale', hlot', hsells, hno, hprice, hasset⟩ := h
  have hget : ∀ {k : ℕ} {t' : Trade}, after[k]? = some t' →
      ∃ t, before[k]? = some t ∧ SameTrx env t.toTrx t'.toTrx := by
    intro k t' hk
    obtain ⟨hlt, rfl⟩ := List.getElem?_eq_some_iff.mp hk
    have hlt' : k < before.length := htrx.length_eq ▸ hlt
    exact ⟨before[k], List.getElem?_eq_getElem hlt', htrx.get hlt' hlt⟩
  obtain ⟨sale, hsale, hsaleTrx⟩ := hget hsale'
  obtain ⟨lot, hlot, hlotTrx⟩ := hget hlot'
  refine ⟨hij, sale, lot, hsale, hlot, ?_, ?_, ?_, ?_⟩
  · rw [hsaleTrx.congr (sells env) (sells_withSymbs env), hsells]
  · rw [hlotTrx.congr (isNoLot env) (isNoLot_withSymbs env), hno]
  · rw [hlotTrx.congr (buyPriceUsd opts) (buyPriceUsd_withSymbs env opts),
      hprice]
  · rw [hsaleTrx.congr (soldAsset env) (soldAsset_withSymbs env),
      hlotTrx.congr (boughtAsset env) (boughtAsset_withSymbs env), hasset]

theorem Allocation.trans {first second : ℕ → ℕ → ℚ}
    (hfirst : Allocation env opts before middle first)
    (hsecond : Allocation env opts middle after second) :
    Allocation env opts before after fun i j => first i j + second i j where
  trx := forall₂_trans hfirst.trx hsecond.trx
    fun _ _ _ => SameTrx.trans
  nonneg := fun i j => add_nonneg (hfirst.nonneg i j) (hsecond.nonneg i j)
  support := by
    intro i j hne
    by_cases hzero : first i j = 0
    · have hsec : second i j ≠ 0 := by simpa [hzero] using hne
      exact mayCover_of_sameTrx hfirst.trx (hsecond.support i j hsec)
    · exact hfirst.support i j hzero
  sold := by
    intro i
    rw [hsecond.sold, hfirst.sold, hfirst.trx.length_eq, sum_add_distrib,
      add_assoc]
  bought := by
    intro j
    rw [hsecond.bought, hfirst.bought, hfirst.trx.length_eq, sum_add_distrib,
      add_assoc]
  cost := by
    intro i
    have hprice : ∀ j,
        readAt before (fun lot => (lot.buyPriceUsd opts).getD 0) j =
          readAt middle (fun lot => (lot.buyPriceUsd opts).getD 0) j :=
      readAt_congr _ (hfirst.trx.imp fun _ _ h => by
        simp only [h.congr (buyPriceUsd opts) (buyPriceUsd_withSymbs env opts)])
    rw [hsecond.cost, hfirst.cost, hfirst.trx.length_eq, add_assoc,
      ← sum_add_distrib]
    simp only [hprice, add_mul]

/-- The quantities of the older trades, seen from the whole list. -/
def shiftQty (qty : ℕ → ℕ → ℚ) : ℕ → ℕ → ℚ
  | i + 1, j + 1 => qty i j
  | _, _ => 0

/-- A run over the older trades leaves the newest one alone. -/
theorem Allocation.cons {qty : ℕ → ℕ → ℚ} (trade : Trade)
    (h : Allocation env opts before after qty) :
    Allocation env opts (trade :: before) (trade :: after) (shiftQty qty) where
  trx := List.Forall₂.cons (SameTrx.refl _) h.trx
  nonneg := by
    intro i j
    cases i <;> cases j <;> simp [shiftQty, h.nonneg]
  support := by
    intro i j hne
    cases i <;> cases j <;> simp only [shiftQty, ne_eq, not_true_eq_false] at hne
    next i j =>
      obtain ⟨hij, sale, lot, hsale, hlot, hrest⟩ := h.support i j hne
      exact ⟨Nat.succ_lt_succ hij, sale, lot, by simpa, by simpa, hrest⟩
  sold := by
    intro i
    rw [List.length_cons, sum_range_succ']
    cases i <;> simp [shiftQty, h.sold]
  bought := by
    intro j
    rw [List.length_cons, sum_range_succ']
    cases j <;> simp [shiftQty, h.bought]
  cost := by
    intro i
    rw [List.length_cons, sum_range_succ']
    cases i <;> simp [shiftQty, h.cost]

/-- The quantities of one sale: what its scan took from each older lot. -/
def rowQty (older older' : List Trade) : ℕ → ℕ → ℚ
  | 0, j + 1 => readAt older' (·.buyFilledAmount) j -
      readAt older (·.buyFilledAmount) j
  | _, _ => 0

theorem readAt_lotCostUsd (trades : List Trade) (k : ℕ) :
    readAt trades (lotCostUsd opts) k =
      readAt trades (·.buyFilledAmount) k *
        readAt trades (fun lot => (lot.buyPriceUsd opts).getD 0) k := by
  induction trades generalizing k with
  | nil => simp [readAt]
  | cons trade rest ih =>
      cases k with
      | zero => rfl
      | succ k => exact ih k

section Scan

variable {trade trade' : Trade} {older older' : List Trade} {asset : String}

theorem Drawn.of_ne {lot lot' : Trade} (h : Drawn env opts asset lot lot')
    (hne : lot'.buyFilledAmount ≠ lot.buyFilledAmount) :
    asset = lot.boughtAsset env ∧ lot.isNoLot env = false ∧
      (lot.buyPriceUsd opts).isSome = true := by
  by_contra hno
  exact hne (h.kept hno).1

theorem drawn_getElem (h : List.Forall₂ (Drawn env opts asset) older older')
    {j : ℕ} (hj : j < older.length) :
    ∃ lot lot', older[j]? = some lot ∧ Drawn env opts asset lot lot' ∧
      readAt older (·.buyFilledAmount) j = lot.buyFilledAmount ∧
      readAt older' (·.buyFilledAmount) j = lot'.buyFilledAmount := by
  have hj' : j < older'.length := h.length_eq ▸ hj
  exact ⟨older[j], older'[j], List.getElem?_eq_getElem hj, h.get hj hj',
    by simp [readAt, hj], by simp [readAt, hj']⟩

theorem rowQty_nonneg (h : List.Forall₂ (Drawn env opts asset) older older')
    (i j : ℕ) : 0 ≤ rowQty older older' i j := by
  cases i <;> cases j <;> simp only [rowQty, le_refl]
  next j =>
    by_cases hj : j < older.length
    · obtain ⟨lot, lot', -, hdrawn, hread, hread'⟩ := drawn_getElem h hj
      rw [hread, hread']
      exact sub_nonneg.mpr hdrawn.mono
    · have hlen := not_lt.mp hj
      rw [readAt_of_length_le hlen,
        readAt_of_length_le (h.length_eq ▸ hlen), sub_zero]

theorem SaleScanned.support (h : SaleScanned env opts trade older trade' older')
    {i j : ℕ} (hne : rowQty older older' i j ≠ 0) :
    MayCover env opts (trade :: older) i j := by
  cases i <;> cases j <;> simp only [rowQty, ne_eq, not_true_eq_false] at hne
  next j =>
    have hj : j < older.length := by
      by_contra hj
      have hlen := not_lt.mp hj
      exact hne (by rw [readAt_of_length_le hlen,
        readAt_of_length_le (h.drawn.length_eq ▸ hlen), sub_zero])
    obtain ⟨lot, lot', hlot, hdrawn, hread, hread'⟩ :=
      drawn_getElem h.drawn hj
    rw [hread, hread', sub_eq_zero] at hne
    have hsells : trade.sells env = true := by
      by_contra hno
      rw [h.sells (by simpa using hno), hread] at hread'
      exact hne hread'.symm
    exact ⟨Nat.succ_pos j, trade, lot, rfl, by simpa, hsells,
      (hdrawn.of_ne hne).2.1, (hdrawn.of_ne hne).2.2, (hdrawn.of_ne hne).1⟩

/-- One turn of the sale loop is an allocation in the first row. -/
theorem SaleScanned.allocation
    (h : SaleScanned env opts trade older trade' older') :
    Allocation env opts (trade :: older) (trade' :: older')
      (rowQty older older') where
  trx := .cons h.trx (h.drawn.imp fun _ _ hdrawn => hdrawn.trx)
  nonneg := rowQty_nonneg h.drawn
  support := fun _ _ => h.support
  sold := by
    intro i
    rw [List.length_cons, sum_range_succ']
    cases i with
    | zero =>
        have hlen := h.drawn.length_eq
        simp only [rowQty, readAt_cons_zero, sum_sub_distrib, add_zero]
        rw [sum_readAt, hlen, sum_readAt, ← h.filled]
        ring
    | succ i =>
        simp only [rowQty, readAt_cons_succ, sum_const_zero, add_zero]
        exact (readAt_congr _ (h.drawn.imp fun _ _ hdrawn => by
          rw [hdrawn.saleBook]) i).symm
  bought := by
    intro j
    rw [List.length_cons, sum_range_succ']
    obtain ⟨isBuyTrx, hbook⟩ := h.buyBook
    cases j with
    | zero => simp [rowQty, hbook]
    | succ j => simp [rowQty]
  cost := by
    intro i
    rw [List.length_cons, sum_range_succ']
    cases i with
    | zero =>
        have hprice := readAt_congr (fun lot : Trade =>
          (lot.buyPriceUsd opts).getD 0) (h.drawn.imp fun _ _ hdrawn => by
            simp only [hdrawn.trx.congr (buyPriceUsd opts)
              (buyPriceUsd_withSymbs env opts)])
        have hsum : ∀ j, (readAt older' (·.buyFilledAmount) j -
              readAt older (·.buyFilledAmount) j) *
              readAt older (fun lot => (lot.buyPriceUsd opts).getD 0) j =
            readAt older' (lotCostUsd opts) j -
              readAt older (lotCostUsd opts) j := by
          intro j
          rw [readAt_lotCostUsd, readAt_lotCostUsd, ← hprice]
          ring
        have hlen := h.drawn.length_eq
        simp only [rowQty, readAt_cons_zero, readAt_cons_succ, hsum,
          sum_sub_distrib, zero_mul, add_zero]
        rw [sum_readAt, hlen, sum_readAt, ← h.cost]
        ring
    | succ i =>
        simp only [rowQty, readAt_cons_succ, zero_mul, sum_const_zero, add_zero]
        exact (readAt_congr _ (h.drawn.imp fun _ _ hdrawn => by
          rw [hdrawn.saleBook]) i).symm

/-- Both counters of a trade are within their amounts. -/
structure TradeBound (trade : Trade) : Prop where
  lot : LotBound trade
  sale : SaleBound trade.soldAmount trade

theorem SaleScanned.tradeBound
    (h : SaleScanned env opts trade older trade' older')
    (hbound : ∀ t ∈ trade :: older, TradeBound t) :
    ∀ t ∈ trade' :: older', TradeBound t := by
  obtain ⟨htrade, holder⟩ := List.forall_mem_cons.mp hbound
  refine List.forall_mem_cons.mpr ⟨⟨?_, ?_⟩, ?_⟩
  · obtain ⟨isBuyTrx, hbook⟩ := h.buyBook
    have hamount := h.trx.congr boughtAmount (boughtAmount_withSymbs env)
    refine ⟨?_, ?_, ?_⟩
    · rw [hbook]
      exact htrade.lot.nonneg
    · rw [hbook, ← hamount]
      exact htrade.lot.le
    · rw [hbook, ← hamount]
      exact htrade.lot.full
  · rw [← h.trx.congr soldAmount (soldAmount_withSymbs env)]
    exact h.bound
  · intro lot' hmem
    obtain ⟨j, hj', rfl⟩ := List.getElem_of_mem hmem
    have hj : j < older.length := h.drawn.length_eq ▸ hj'
    have hdrawn := h.drawn.get hj hj'
    simp only [List.get_eq_getElem] at hdrawn
    have hsale := (holder older[j] (List.getElem_mem hj)).sale
    refine ⟨hdrawn.bound, ?_⟩
    rw [← hdrawn.trx.congr soldAmount (soldAmount_withSymbs env)]
    exact ⟨hdrawn.saleBook ▸ hsale.nonneg, hdrawn.saleBook ▸ hsale.le,
      hdrawn.saleBook ▸ hsale.full⟩

end Scan

/-- The run lemma of the sale loop from the oldest sale on. -/
theorem lookUpSalesBack_allocation (env : TaxEnv) (opts : LookUpOpts)
    (ctx : LookUpCtx) (trades : List Trade)
    (hbound : ∀ t ∈ trades, TradeBound t) :
    (∀ t ∈ (lookUpSalesBack env opts ctx trades).trades, TradeBound t) ∧
      ∃ qty, Allocation env opts trades
        (lookUpSalesBack env opts ctx trades).trades qty := by
  induction trades with
  | nil => exact ⟨by simp [lookUpSalesBack], _, Allocation.refl _⟩
  | cons trade older ih =>
      obtain ⟨htrade, holder⟩ := List.forall_mem_cons.mp hbound
      obtain ⟨hrunBound, qty, hrun⟩ := ih holder
      simp only [lookUpSalesBack]
      split
      · have hscan := lookUpSale_scanned env opts
          (lookUpSalesBack env opts ctx older).ctx htrade.sale
          fun lot hmem => (hrunBound lot hmem).lot
        exact ⟨hscan.tradeBound (List.forall_mem_cons.mpr
          ⟨htrade, hrunBound⟩), _, (hrun.cons trade).trans hscan.allocation⟩
      · exact ⟨List.forall_mem_cons.mpr ⟨htrade, hrunBound⟩, _,
          hrun.cons trade⟩

/-- The run lemma of the sale loop from the newest sale on. -/
theorem lookUpSalesForth_allocation (env : TaxEnv) (opts : LookUpOpts)
    (ctx : LookUpCtx) (n : ℕ) (trades : List Trade)
    (hbound : ∀ t ∈ trades, TradeBound t) :
    (∀ t ∈ (lookUpSalesForth env opts n ctx trades).trades, TradeBound t) ∧
      ∃ qty, Allocation env opts trades
        (lookUpSalesForth env opts n ctx trades).trades qty := by
  induction n generalizing ctx trades with
  | zero =>
      cases trades <;> exact ⟨hbound, _, Allocation.refl _⟩
  | succ n ih =>
      cases trades with
      | nil => exact ⟨hbound, _, Allocation.refl _⟩
      | cons trade older =>
          obtain ⟨htrade, holder⟩ := List.forall_mem_cons.mp hbound
          have hscan := lookUpSale_scanned env opts ctx htrade.sale
            fun lot hmem => (holder lot hmem).lot
          have hscanBound := hscan.tradeBound hbound
          obtain ⟨htrade', holder'⟩ := List.forall_mem_cons.mp hscanBound
          simp only [lookUpSalesForth]
          split
          · obtain ⟨hrunBound, qty, hrun⟩ := ih
              (lookUpSale env opts ctx trade older).ctx _ holder'
            exact ⟨List.forall_mem_cons.mpr ⟨htrade', hrunBound⟩, _,
              hscan.allocation.trans (hrun.cons _)⟩
          · exact ⟨hscanBound, _, hscan.allocation⟩

theorem markUnrealized_trx (trade : Trade) :
    (markUnrealized opts trade).toTrx = trade.toTrx := by
  unfold markUnrealized
  split <;> rfl

theorem markUnrealized_saleBook (trade : Trade) :
    (markUnrealized opts trade).toSaleBook = trade.toSaleBook := by
  unfold markUnrealized
  split <;> rfl

theorem markUnrealized_buyFilledAmount (trade : Trade) :
    (markUnrealized opts trade).buyFilledAmount = trade.buyFilledAmount := by
  unfold markUnrealized
  split <;> rfl

theorem markUnrealized_isBuyTrxHistFilled (trade : Trade) :
    (markUnrealized opts trade).isBuyTrxHistFilled =
      trade.isBuyTrxHistFilled := by
  unfold markUnrealized
  split <;> rfl

theorem TradeBound.markUnrealized {trade : Trade} (h : TradeBound trade) :
    TradeBound (markUnrealized opts trade) := by
  refine ⟨⟨?_, ?_, ?_⟩, ⟨?_, ?_, ?_⟩⟩ <;>
    simp only [markUnrealized_trx, markUnrealized_saleBook,
      markUnrealized_buyFilledAmount, markUnrealized_isBuyTrxHistFilled]
  · exact h.lot.nonneg
  · exact h.lot.le
  · exact h.lot.full
  · exact h.sale.nonneg
  · exact h.sale.le
  · exact h.sale.full

/-- The marks of the final loop are no allocation. -/
theorem Allocation.mapMark {qty : ℕ → ℕ → ℚ}
    (h : Allocation env opts before after qty) :
    Allocation env opts before (after.map (markUnrealized opts)) qty := by
  have hread : ∀ (read : Trade → ℚ) (k : ℕ),
      (∀ t, read (markUnrealized opts t) = read t) →
      readAt (after.map (markUnrealized opts)) read k = readAt after read k := by
    intro read k hread
    have hcomp : read ∘ markUnrealized opts = read := funext hread
    simp [readAt, hcomp]
  refine ⟨?_, h.nonneg, h.support, ?_, ?_, ?_⟩
  · rw [List.forall₂_map_right_iff]
    exact h.trx.imp fun t t' htrx => by rwa [markUnrealized_trx]
  · intro i
    rw [hread _ _ fun t => by rw [markUnrealized_saleBook], h.sold]
  · intro j
    rw [hread _ _ markUnrealized_buyFilledAmount, h.bought]
  · intro i
    rw [hread _ _ fun t => by rw [markUnrealized_saleBook], h.cost]

/-- Every way through `lookUpTrades` is an allocation. -/
theorem lookUpTrades_allocation (env : TaxEnv) (opts : LookUpOpts)
    (ctx : LookUpCtx) (trades : List Trade)
    (hbound : ∀ t ∈ trades, TradeBound t) :
    (∀ t ∈ (lookUpTrades env opts ctx trades).trades, TradeBound t) ∧
      ∃ qty, Allocation env opts trades
        (lookUpTrades env opts ctx trades).trades qty := by
  have hrun : (∀ t ∈ (lookUpSales env opts ctx trades).trades, TradeBound t) ∧
      ∃ qty, Allocation env opts trades
        (lookUpSales env opts ctx trades).trades qty := by
    unfold lookUpSales
    split
    · exact lookUpSalesBack_allocation env opts ctx trades hbound
    · exact lookUpSalesForth_allocation env opts ctx trades.length trades hbound
  obtain ⟨hrunBound, qty, hqty⟩ := hrun
  simp only [lookUpTrades]
  split
  · refine ⟨?_, qty, hqty.mapMark⟩
    simp only [List.mem_map, forall_exists_index, and_imp,
      forall_apply_eq_imp_iff₂]
    exact fun t hmem => (hrunBound t hmem).markUnrealized
  · exact ⟨hrunBound, qty, hqty⟩

/-- How much of an asset the sales of a list have been covered for. -/
def soldOf (env : TaxEnv) (asset : String) (trades : List Trade) : ℚ :=
  ((trades.filter fun t => t.sells env && t.soldAsset env == asset).map
    (·.saleFilledAmount)).sum

/-- How much of an asset has been taken from the lots of a list. -/
def boughtOf (env : TaxEnv) (asset : String) (trades : List Trade) : ℚ :=
  ((trades.filter fun t => !t.isNoLot env && t.boughtAsset env == asset).map
    (·.buyFilledAmount)).sum

theorem sum_filter_readAt (trades : List Trade) (p : Trade → Bool)
    (read : Trade → ℚ) :
    ((trades.filter p).map read).sum =
      ∑ k ∈ range trades.length,
        if trades[k]?.any p then readAt trades read k else 0 := by
  induction trades with
  | nil => rfl
  | cons trade rest ih =>
      rw [List.length_cons, sum_range_succ']
      by_cases hp : p trade = true
      · simp [hp, ih, add_comm]
      · simp [hp, ih]

theorem soldOf_eq_boughtOf {qty : ℕ → ℕ → ℚ}
    (h : Allocation env opts before after qty)
    (hsold : ∀ i, readAt before (·.saleFilledAmount) i = 0)
    (hbought : ∀ j, readAt before (·.buyFilledAmount) j = 0)
    (asset : String) : soldOf env asset after = boughtOf env asset after := by
  have hlen := h.trx.length_eq
  have hsupport : ∀ i j, qty i j ≠ 0 → MayCover env opts after i j :=
    fun i j hne => mayCover_of_sameTrx
      (List.Forall₂.flip h.trx |>.imp fun _ _ htrx => Eq.symm htrx)
      (h.support i j hne)
  -- a quantity counts for the sale's asset exactly when it does for the lot's
  have hside : ∀ i j,
      (if after[i]?.any fun t => t.sells env && t.soldAsset env == asset then
        qty i j else 0) =
      if after[j]?.any fun t => !t.isNoLot env && t.boughtAsset env == asset
        then qty i j else 0 := by
    intro i j
    by_cases hzero : qty i j = 0
    · simp [hzero]
    · obtain ⟨-, sale, lot, hsale, hlot, hsells, hno, -, hasset⟩ :=
        hsupport i j hzero
      simp [hsale, hlot, hsells, hno, hasset]
  rw [soldOf, boughtOf, sum_filter_readAt, sum_filter_readAt, ← hlen]
  simp only [h.sold, h.bought, hsold, hbought, zero_add]
  calc ∑ i ∈ range before.length,
        (if after[i]?.any fun t => t.sells env && t.soldAsset env == asset then
          ∑ j ∈ range before.length, qty i j else 0)
      = ∑ i ∈ range before.length, ∑ j ∈ range before.length,
          (if after[j]?.any fun t =>
              !t.isNoLot env && t.boughtAsset env == asset then
            qty i j else 0) := by
        refine sum_congr rfl fun i _ => ?_
        simp only [← hside]
        split <;> simp
    _ = ∑ j ∈ range before.length, ∑ i ∈ range before.length,
          (if after[j]?.any fun t =>
              !t.isNoLot env && t.boughtAsset env == asset then
            qty i j else 0) := sum_comm
    _ = _ := by
        refine sum_congr rfl fun j _ => ?_
        split <;> simp

/-- A trade no look-up has touched yet. -/
structure Unfilled (trade : Trade) : Prop where
  sale : trade.saleFilledAmount = 0
  saleOpen : trade.isSaleTrxHistFilled = false
  cost : trade.costForSaleTrxUsd = 0
  buy : trade.buyFilledAmount = 0
  buyOpen : trade.isBuyTrxHistFilled = false

theorem Unfilled.tradeBound {trade : Trade} (h : Unfilled trade) :
    TradeBound trade where
  lot := ⟨h.buy.ge, h.buy.le.trans (boughtAmount_nonneg _),
    fun hfull => absurd hfull (by simp [h.buyOpen])⟩
  sale := ⟨h.sale.ge, h.sale.le.trans (soldAmount_nonneg _),
    fun hfull => absurd hfull (by simp [h.saleOpen])⟩

theorem readAt_eq_zero {trades : List Trade} {read : Trade → ℚ}
    (h : ∀ t ∈ trades, read t = 0) (k : ℕ) : readAt trades read k = 0 := by
  by_cases hk : k < trades.length
  · simp [readAt, hk, h]
  · exact readAt_of_length_le (not_lt.mp hk)

/-- Conservation of tax lots: under any options, wherever the interrupter or
an error ends the look-up, no lot and no sale is filled beyond its amount, the
flags say so exactly, and there are quantities, one for each sale and older lot
of the sold asset, whose sums are the counters and whose value is the cost. -/
theorem lookUpTrades_conserves_lots (env : TaxEnv) (opts : LookUpOpts)
    (ctx : LookUpCtx) (trades : List Trade)
    (hunfilled : ∀ t ∈ trades, Unfilled t) :
    let after := (lookUpTrades env opts ctx trades).trades
    (∀ t ∈ after,
      (0 ≤ t.buyFilledAmount ∧ t.buyFilledAmount ≤ t.boughtAmount ∧
        (t.isBuyTrxHistFilled = true → t.buyFilledAmount = t.boughtAmount)) ∧
      0 ≤ t.saleFilledAmount ∧ t.saleFilledAmount ≤ t.soldAmount ∧
        (t.isSaleTrxHistFilled = true → t.saleFilledAmount = t.soldAmount)) ∧
    (∃ qty : ℕ → ℕ → ℚ,
      (∀ i j, 0 ≤ qty i j ∧ (qty i j ≠ 0 → MayCover env opts trades i j)) ∧
      ∀ k,
        readAt after (·.saleFilledAmount) k =
          ∑ j ∈ range trades.length, qty k j ∧
        readAt after (·.buyFilledAmount) k =
          ∑ i ∈ range trades.length, qty i k ∧
        readAt after (·.costForSaleTrxUsd) k =
          ∑ j ∈ range trades.length, qty k j *
            readAt trades (fun lot => (lot.buyPriceUsd opts).getD 0) j) ∧
    ∀ asset, soldOf env asset after = boughtOf env asset after := by
  obtain ⟨hbound, qty, h⟩ := lookUpTrades_allocation env opts ctx trades
    fun t hmem => (hunfilled t hmem).tradeBound
  have hsold := readAt_eq_zero fun t hmem => (hunfilled t hmem).sale
  have hbought := readAt_eq_zero fun t hmem => (hunfilled t hmem).buy
  have hcost := readAt_eq_zero fun t hmem => (hunfilled t hmem).cost
  refine ⟨fun t hmem => ⟨?_, ?_⟩, ⟨qty, fun i j => ⟨h.nonneg i j,
    h.support i j⟩, fun k => ⟨?_, ?_, ?_⟩⟩,
    soldOf_eq_boughtOf h hsold hbought⟩
  · exact ⟨(hbound t hmem).lot.nonneg, (hbound t hmem).lot.le,
      (hbound t hmem).lot.full⟩
  · exact ⟨(hbound t hmem).sale.nonneg, (hbound t hmem).sale.le,
      (hbound t hmem).sale.full⟩
  · rw [h.sold, hsold, zero_add]
  · rw [h.bought, hbought, zero_add]
  · rw [h.cost, hcost, zero_add]

/-- One of two bitcoins bought is sold again. -/
theorem lookUpTrades_conserves_lots_of_one_sale :
    let bought : Trade := {
      symbol := "tBTCUSD", mtsCreate := 1, firstSymb := "BTC"
      lastSymb := "USD", execAmount := some 2, execPrice := some 10
      firstSymbPriceUsd := some 10, lastSymbPriceUsd := some 1 }
    let sold : Trade := { bought with
      mtsCreate := 2, execAmount := some (-1), execPrice := some 30
      firstSymbPriceUsd := some 30 }
    let env : TaxEnv := ⟨["USD"], fun _ => ("", "")⟩
    let after := (lookUpTrades env {} {} [sold, bought]).trades
    after.map (·.buyFilledAmount) = [0, 1] ∧
      soldOf env "BTC" after = boughtOf env "BTC" after := by
  intro bought sold env after
  have hunfilled : ∀ t ∈ [sold, bought], Unfilled t := by
    simp only [List.forall_mem_cons, List.not_mem_nil, false_implies,
      implies_true, and_true]
    exact ⟨⟨rfl, rfl, rfl, rfl, rfl⟩, ⟨rfl, rfl, rfl, rfl, rfl⟩⟩
  exact ⟨by decide +kernel,
    (lookUpTrades_conserves_lots env {} {} [sold, bought] hunfilled).2.2 "BTC"⟩

end ReportsFramework
