/-
The value in USD that is stored with a trade or a movement once it is priced: loaded
again it gives both prices back.
-/
import ReportsFramework.TrxPricing

namespace ReportsFramework

/-- A price, where there is one, is positive. -/
def IsPrice (price : Option ℚ) : Prop :=
  ∀ p, price = some p → 0 < p

/-- What a calculator leaves of a transaction that it prices. -/
theorem calcPrice_eq_calcPrices {calculator : TrxPriceCalculator}
    {pubTradePrice triangulationPrice : Option ℚ} {trx trx' : ReportTrx}
    (hkind : calculator.kindOfCcyForTriangulation ≠ some .isCryptoCcyForTriangulation)
    (hpub : IsPrice pubTradePrice) (htriangulation : IsPrice triangulationPrice)
    (h : calculator.calcPrice pubTradePrice triangulationPrice trx = .ok trx') :
    ∃ price, 0 < price ∧ trx' = trx.calcPrices calculator.convPricePropName price := by
  unfold TrxPriceCalculator.calcPrice at h
  split at h
  · cases h
  next price hprice =>
    have hpos := hpub price (nonzero?_eq_some.mp hprice).1
    split at h
    next hcrypto => exact absurd hcrypto hkind
    · split at h
      · cases h
      next cryptoPrice hcrypto =>
        cases h
        have hcryptoPos := htriangulation cryptoPrice (nonzero?_eq_some.mp hcrypto).1
        exact ⟨cryptoPrice / price, div_pos hcryptoPos hpos, rfl⟩
    · cases h
      exact ⟨price, hpos, rfl⟩

section Trades

variable {execAmount execPrice : ℚ}

/-- Whichever of the currencies is converted, the prices differ by `execPrice`, and the
value is the amount at the first of them. -/
theorem calcPrices_trade (trade : TradeRow) (symbs : String × String) (mtsCreate : ℕ)
    (execAmount : ℚ) (convPricePropName : PricePropName) {price : ℚ} (hprice : 0 < price)
    (hexec : 0 < execPrice) :
    ∃ last, 0 < last ∧
      (trade.trx symbs mtsCreate execAmount execPrice).calcPrices convPricePropName price =
        { trade.trx symbs mtsCreate execAmount execPrice with
          firstSymbPriceUsd := some (last * execPrice)
          lastSymbPriceUsd := some last
          exactUsdValue := some (execAmount * (last * execPrice)) } := by
  have hnonzero := nonzero?_some hexec.ne'
  cases convPricePropName with
  | firstSymbPriceUsd =>
    refine ⟨price / execPrice, div_pos hprice hexec, ?_⟩
    rw [div_mul_cancel₀ price hexec.ne']
    simp [ReportTrx.calcPrices, TradeRow.trx, hnonzero]
  | lastSymbPriceUsd =>
    refine ⟨price, hprice, ?_⟩
    simp [ReportTrx.calcPrices, TradeRow.trx, hnonzero]

theorem abs_exactUsdValue_div {last : ℚ} (hamount : execAmount ≠ 0) (hlast : 0 < last)
    (hexec : 0 < execPrice) :
    |execAmount * (last * execPrice) / execAmount| = last * execPrice ∧
      |execAmount * (last * execPrice) / (execAmount * execPrice)| = last := by
  constructor
  · rw [mul_div_cancel_left₀ _ hamount]
    exact abs_of_pos (mul_pos hlast hexec)
  · rw [mul_left_comm, mul_div_cancel_right₀ _ (mul_ne_zero hamount hexec.ne')]
    exact abs_of_pos hlast

/-- A trade that is priced is loaded again with the same prices. -/
theorem remapTrade_calcPrices {env : TaxEnv} {trade : TradeRow} {trx : ReportTrx}
    (convPricePropName : PricePropName) {price : ℚ} (hprice : 0 < price)
    (hexec : IsPrice trade.execPrice) (htrx : remapTrade env trade = .forConvToUsd trx) :
    ∃ reloaded first last execPrice,
      remapTrade env
          (trade.updateExactUsdValue (trx.calcPrices convPricePropName price).exactUsdValue) =
          .priced reloaded ∧
        reloaded.firstSymbPriceUsd = (trx.calcPrices convPricePropName price).firstSymbPriceUsd ∧
        reloaded.lastSymbPriceUsd = (trx.calcPrices convPricePropName price).lastSymbPriceUsd ∧
        reloaded.firstSymbPriceUsd = some first ∧ reloaded.lastSymbPriceUsd = some last ∧
        trade.execPrice = some execPrice ∧ first = last * execPrice := by
  obtain ⟨hsymbol, husd, mtsCreate, execAmount, execPrice, hmts, hamount, hexecPrice, rfl⟩ :=
    remapTrade_forConvToUsd htrx
  have hstored := (nonzero?_eq_some.mp hexecPrice).1
  have hpos := hexec execPrice hstored
  have hne := (nonzero?_eq_some.mp hamount).2
  obtain ⟨last, hlast, hpriced⟩ := calcPrices_trade trade (env.splitSymbolPairs trade.symbol)
    mtsCreate execAmount convPricePropName hprice hpos
  have hvalue : execAmount * (last * execPrice) ≠ 0 := mul_ne_zero hne (mul_pos hlast hpos).ne'
  obtain ⟨hfirst, hlast'⟩ := abs_exactUsdValue_div hne hlast hpos
  rw [hpriced, remapTrade_updateExactUsdValue hsymbol husd hmts hamount hexecPrice hvalue, hfirst,
    hlast']
  exact ⟨_, last * execPrice, last, execPrice, rfl, rfl, rfl, rfl, rfl, hstored, rfl⟩

end Trades

section Movements

/-- The value of a movement is its amount at its price. -/
theorem calcPrices_movement (movement : MovementRow) (mtsUpdated : ℕ) (amount : ℚ) {price : ℚ}
    (hprice : 0 < price) :
    (movement.trx mtsUpdated amount).calcPrices .firstSymbPriceUsd price =
      { (movement.trx mtsUpdated amount).atPrice price with
        exactUsdValue := some (amount * price) } := by
  have hnonzero := nonzero?_some hprice.ne'
  simp [ReportTrx.calcPrices, MovementRow.trx, ReportTrx.atPrice, hnonzero, div_self hprice.ne']

/-- A movement that is priced is loaded again with the same prices. -/
theorem remapMovement_calcPrices {env : TaxEnv} {movement : MovementRow} {trx : ReportTrx}
    {price : ℚ} (hprice : 0 < price) (htrx : remapMovement env movement = .forConvToUsd trx) :
    ∃ reloaded,
      remapMovement env
          (movement.updateExactUsdValue (trx.calcPrices .firstSymbPriceUsd price).exactUsdValue) =
            .priced reloaded ∧
        reloaded.firstSymbPriceUsd = (trx.calcPrices .firstSymbPriceUsd price).firstSymbPriceUsd ∧
        reloaded.lastSymbPriceUsd = (trx.calcPrices .firstSymbPriceUsd price).lastSymbPriceUsd ∧
        reloaded.execPrice = (trx.calcPrices .firstSymbPriceUsd price).execPrice := by
  obtain ⟨hcurrency, husd, mtsUpdated, amount, hmts, hamount, rfl⟩ :=
    remapMovement_forConvToUsd htrx
  have hne := (nonzero?_eq_some.mp hamount).2
  have hvalue : amount * price ≠ 0 := mul_ne_zero hne hprice.ne'
  have habs : |amount * price / amount| = price := by
    rw [mul_div_cancel_left₀ _ hne]
    exact abs_of_pos hprice
  rw [calcPrices_movement movement mtsUpdated amount hprice,
    remapMovement_updateExactUsdValue hcurrency husd hmts hamount hvalue, habs]
  exact ⟨_, rfl, rfl, rfl, rfl⟩

theorem lastSymb_of_remapMovement {env : TaxEnv} {movement : MovementRow} {trx : ReportTrx}
    (htrx : remapMovement env movement = .forConvToUsd trx) : trx.lastSymb = "USD" := by
  obtain ⟨-, -, mtsUpdated, amount, -, -, rfl⟩ := remapMovement_forConvToUsd htrx
  rfl

end Movements

/-- Once a calculator of `getTrxMapByCcy` has priced a transaction, the value stored with
its row gives the same two prices back when the row is remapped again. -/
theorem exactUsdValue_round_trip (env : TaxEnv) (trxs : List ReportTrx) {symb : String}
    {calculators : List TrxPriceCalculator} {calculator : TrxPriceCalculator} {trx trx' : ReportTrx}
    {pubTradePrice triangulationPrice : Option ℚ}
    (hentry : (symb, calculators) ∈ getTrxMapByCcy env trxs)
    (hcalculator : calculator ∈ calculators)
    (htrx : trxs[calculator.trx]? = some trx)
    (hkind : calculator.kindOfCcyForTriangulation ≠ some .isCryptoCcyForTriangulation)
    (hpub : IsPrice pubTradePrice) (htriangulation : IsPrice triangulationPrice)
    (hpriced : calculator.calcPrice pubTradePrice triangulationPrice trx = .ok trx') :
    (∀ trade, remapTrade env trade = .forConvToUsd trx → IsPrice trade.execPrice →
      ∃ reloaded first last execPrice,
        remapTrade env (trade.updateExactUsdValue trx'.exactUsdValue) = .priced reloaded ∧
          reloaded.firstSymbPriceUsd = trx'.firstSymbPriceUsd ∧
          reloaded.lastSymbPriceUsd = trx'.lastSymbPriceUsd ∧
          reloaded.firstSymbPriceUsd = some first ∧ reloaded.lastSymbPriceUsd = some last ∧
          trade.execPrice = some execPrice ∧ first = last * execPrice) ∧
    ∀ movement, remapMovement env movement = .forConvToUsd trx →
      ∃ reloaded,
        remapMovement env (movement.updateExactUsdValue trx'.exactUsdValue) = .priced reloaded ∧
          reloaded.firstSymbPriceUsd = trx'.firstSymbPriceUsd ∧
          reloaded.lastSymbPriceUsd = trx'.lastSymbPriceUsd ∧
          reloaded.execPrice = trx'.execPrice := by
  obtain ⟨price, hprice, rfl⟩ := calcPrice_eq_calcPrices hkind hpub htriangulation hpriced
  constructor
  · intro trade hremap hexec
    exact remapTrade_calcPrices calculator.convPricePropName hprice hexec hremap
  · intro movement hremap
    obtain ⟨trx₁, i, htrx₁, hmem⟩ := mem_getTrxMapByCcy hentry hcalculator
    have hsame : trx₁ = trx := by
      rw [trx_of_mem_ccyCalculators hmem, htrx₁] at htrx
      exact Option.some.inj htrx
    rw [hsame] at hmem
    rw [convPricePropName_of_usd (lastSymb_of_remapMovement hremap) hmem]
    exact remapMovement_calcPrices hprice hremap

namespace PriceRoundTripWitness

/-- The symbol is the pair of its first and last three letters behind a `t`. -/
def env : TaxEnv where
  forexSymbs := ["USD", "EUR"]
  splitSymbolPairs symbol :=
    (String.ofList ((symbol.toList.drop 1).take 3), String.ofList (symbol.toList.drop 4))

/-- Two of a currency are bought for half a bitcoin each. -/
def trade : TradeRow := ⟨1, "tLTCBTC", some 10, some 2, some (1 / 2), none, "", none⟩

def trx : ReportTrx := trade.trx ("LTC", "BTC") 10 2 (1 / 2)

def calculator : TrxPriceCalculator := ⟨0, .lastSymbPriceUsd, none⟩

theorem isPrice_some {p : ℚ} (h : 0 < p) : IsPrice (some p) := by
  intro q hq
  rw [← Option.some.inj hq]
  exact h

/-- At 100 dollars for a bitcoin the two are worth 100 dollars. -/
theorem exactUsdValue_round_trip_of_trade :
    (trx.calcPrices .lastSymbPriceUsd 100).exactUsdValue = some 100 ∧
      ∃ reloaded first last execPrice,
        remapTrade env (trade.updateExactUsdValue
          (trx.calcPrices .lastSymbPriceUsd 100).exactUsdValue) = .priced reloaded ∧
          reloaded.firstSymbPriceUsd = (trx.calcPrices .lastSymbPriceUsd 100).firstSymbPriceUsd ∧
          reloaded.lastSymbPriceUsd = (trx.calcPrices .lastSymbPriceUsd 100).lastSymbPriceUsd ∧
          reloaded.firstSymbPriceUsd = some first ∧ reloaded.lastSymbPriceUsd = some last ∧
          trade.execPrice = some execPrice ∧ first = last * execPrice := by
  have hentry : ("BTC", [calculator]) ∈ getTrxMapByCcy env [trx] := by decide +kernel
  have hpriced : calculator.calcPrice (some 100) none trx =
      .ok (trx.calcPrices .lastSymbPriceUsd 100) := by rfl
  have hremap : remapTrade env trade = .forConvToUsd trx := by decide +kernel
  constructor
  · decide +kernel
  · exact (exactUsdValue_round_trip env [trx] hentry (List.mem_singleton_self calculator) rfl
      (by decide) (isPrice_some (by norm_num)) (fun _ h => by cases h) hpriced).1 trade hremap
      (isPrice_some (by norm_num))

end PriceRoundTripWitness

end ReportsFramework
