/-
`getTrxMapByCcy` and `TrxPriceCalculator`: which currency of a transaction is priced, and
what its price gives.
-/
import ReportsFramework.TrxRemap

namespace ReportsFramework

inductive PricePropName
  | firstSymbPriceUsd
  | lastSymbPriceUsd
deriving DecidableEq, Repr

inductive KindOfCcyForTriangulation
  | isCryptoCcyForTriangulation
  | isForexCcyForTriangulation
deriving DecidableEq, Repr

/-- A calculator by the place of its transaction.  The price that is not converted is
calculated.  A forex calculator takes the price of the crypto one of its transaction. -/
structure TrxPriceCalculator where
  trx : ℕ
  convPricePropName : PricePropName
  kindOfCcyForTriangulation : Option KindOfCcyForTriangulation
deriving DecidableEq, Repr

def cryptoCcyForTriangulation : String := "BTC"

section TrxMap

/-- In the order of priority. -/
def priorityCurrencyList : List String := ["BTC", "ETH", "UST"]

/-- Without the ending of a derivative. -/
def normalizeSymb (symb : String) : String :=
  if symb.endsWith "F0" || symb.endsWith "f0" then
    String.ofList (symb.toList.take (symb.length - 2))
  else symb

/-- The first symbol is of the priority list, and the last one is not before it. -/
def hasPriority (firstSymb lastSymb : String) : Bool :=
  match priorityCurrencyList.idxOf? firstSymb, priorityCurrencyList.idxOf? lastSymb with
  | some i, some j => i ≤ j
  | some _, none => true
  | none, _ => false

/-- The calculators of a transaction with the currencies they are listed under. -/
def ccyCalculators (env : TaxEnv) (trx : ReportTrx) (i : ℕ) : List (String × TrxPriceCalculator) :=
  let firstSymb := normalizeSymb trx.firstSymb
  let lastSymb := normalizeSymb trx.lastSymb
  if env.isForexSymb trx.firstSymb ∧ lastSymb = "USD" then
    [(cryptoCcyForTriangulation, ⟨i, .firstSymbPriceUsd, some .isCryptoCcyForTriangulation⟩),
      (firstSymb, ⟨i, .firstSymbPriceUsd, some .isForexCcyForTriangulation⟩)]
  else if env.isForexSymb trx.firstSymb then [(lastSymb, ⟨i, .lastSymbPriceUsd, none⟩)]
  else if env.isForexSymb trx.lastSymb then [(firstSymb, ⟨i, .firstSymbPriceUsd, none⟩)]
  else if hasPriority firstSymb lastSymb then [(firstSymb, ⟨i, .firstSymbPriceUsd, none⟩)]
  else if hasPriority lastSymb firstSymb then [(lastSymb, ⟨i, .lastSymbPriceUsd, none⟩)]
  else [(firstSymb, ⟨i, .firstSymbPriceUsd, none⟩)]

/-- A currency that is not in the map is put at its end. -/
def setCcyCalculator (symb : String) (calculator : TrxPriceCalculator) :
    List (String × List TrxPriceCalculator) → List (String × List TrxPriceCalculator)
  | [] => [(symb, [calculator])]
  | (key, calculators) :: map =>
      if key = symb then (key, calculators ++ [calculator]) :: map
      else (key, calculators) :: setCcyCalculator symb calculator map

def placeTriangulationCcyAtStart (map : List (String × List TrxPriceCalculator)) :
    List (String × List TrxPriceCalculator) :=
  match map.find? (·.1 = cryptoCcyForTriangulation) with
  | none => map
  | some entry => entry :: map.filter (·.1 ≠ cryptoCcyForTriangulation)

def getTrxMapByCcy (env : TaxEnv) (trxs : List ReportTrx) :
    List (String × List TrxPriceCalculator) :=
  placeTriangulationCcyAtStart <|
    (trxs.zipIdx.flatMap fun (trx, i) => ccyCalculators env trx i).foldl
      (fun map (symb, calculator) => setCcyCalculator symb calculator map) []

end TrxMap

section CalcPrice

structure PubTradePriceFindForTrxTaxError
deriving DecidableEq, Repr

/-- What is set once the price of the converted currency is known; the arithmetic is
exact here. -/
def ReportTrx.calcPrices (trx : ReportTrx) (convPricePropName : PricePropName) (price : ℚ) :
    ReportTrx :=
  let execPrice := if trx.isAdditionalTrxMovements then some price else trx.execPrice
  match convPricePropName with
  | .firstSymbPriceUsd =>
      match nonzero? execPrice with
      | none => { trx with execPrice, firstSymbPriceUsd := some price }
      | some divisor => { trx with
          execPrice
          firstSymbPriceUsd := some price
          lastSymbPriceUsd := some (price / divisor)
          exactUsdValue := trx.execAmount.map (· * price) }
  | .lastSymbPriceUsd =>
      match nonzero? execPrice with
      | none => { trx with execPrice, lastSymbPriceUsd := some price }
      | some factor => { trx with
          execPrice
          firstSymbPriceUsd := some (price * factor)
          lastSymbPriceUsd := some price
          exactUsdValue := trx.execAmount.map (· * (price * factor)) }

/-- From the price of a public trade and, for a forex currency, the one that the crypto
calculator of the transaction has taken. -/
def TrxPriceCalculator.calcPrice (calculator : TrxPriceCalculator)
    (pubTradePrice triangulationPrice : Option ℚ) (trx : ReportTrx) :
    Except PubTradePriceFindForTrxTaxError ReportTrx :=
  match nonzero? pubTradePrice with
  | none => .error ⟨⟩
  | some price =>
      match calculator.kindOfCcyForTriangulation with
      | some .isCryptoCcyForTriangulation => .ok trx
      | some .isForexCcyForTriangulation =>
          match nonzero? triangulationPrice with
          | none => .error ⟨⟩
          | some cryptoPrice =>
              .ok (trx.calcPrices calculator.convPricePropName (cryptoPrice / price))
      | none => .ok (trx.calcPrices calculator.convPricePropName price)

end CalcPrice

section Lemmas

variable {env : TaxEnv}

theorem mem_setCcyCalculator {symb : String} {calculator : TrxPriceCalculator}
    {map : List (String × List TrxPriceCalculator)} {entry : String × List TrxPriceCalculator}
    {calculator' : TrxPriceCalculator} (hentry : entry ∈ setCcyCalculator symb calculator map)
    (hcalculator : calculator' ∈ entry.2) :
    (entry.1 = symb ∧ calculator' = calculator) ∨
      ∃ calculators, (entry.1, calculators) ∈ map ∧ calculator' ∈ calculators := by
  induction map with
  | nil =>
    simp only [setCcyCalculator, List.mem_singleton] at hentry
    subst hentry
    exact .inl ⟨rfl, by simpa using hcalculator⟩
  | cons head map ih =>
    obtain ⟨key, calculators⟩ := head
    unfold setCcyCalculator at hentry
    split at hentry
    next heq =>
      rcases List.mem_cons.mp hentry with rfl | hentry
      · rcases List.mem_append.mp hcalculator with hcalculator | hcalculator
        · exact .inr ⟨calculators, List.mem_cons_self, hcalculator⟩
        · exact .inl ⟨heq, by simpa using hcalculator⟩
      · exact .inr ⟨entry.2, List.mem_cons_of_mem _ hentry, hcalculator⟩
    · rcases List.mem_cons.mp hentry with rfl | hentry
      · exact .inr ⟨calculators, List.mem_cons_self, hcalculator⟩
      · rcases ih hentry with hnew | ⟨calculators', hmem, hcalculator⟩
        · exact .inl hnew
        · exact .inr ⟨calculators', List.mem_cons_of_mem _ hmem, hcalculator⟩

/-- The calculators that have been set are in the map. -/
theorem mem_foldl_setCcyCalculator {pairs : List (String × TrxPriceCalculator)}
    {map : List (String × List TrxPriceCalculator)} {entry : String × List TrxPriceCalculator}
    {calculator : TrxPriceCalculator}
    (hentry : entry ∈ pairs.foldl (fun map (symb, calculator) =>
      setCcyCalculator symb calculator map) map)
    (hcalculator : calculator ∈ entry.2) :
    (entry.1, calculator) ∈ pairs ∨
      ∃ calculators, (entry.1, calculators) ∈ map ∧ calculator ∈ calculators := by
  induction pairs generalizing map with
  | nil => exact .inr ⟨entry.2, hentry, hcalculator⟩
  | cons pair pairs ih =>
    rcases ih hentry with hmem | ⟨calculators, hmem, hcalculator'⟩
    · exact .inl (List.mem_cons_of_mem _ hmem)
    · rcases mem_setCcyCalculator hmem hcalculator' with ⟨hsymb, rfl⟩ | hmap
      · exact .inl (by rw [hsymb]; exact List.mem_cons_self)
      · exact .inr hmap

theorem mem_placeTriangulationCcyAtStart {map : List (String × List TrxPriceCalculator)}
    {entry : String × List TrxPriceCalculator}
    (h : entry ∈ placeTriangulationCcyAtStart map) : entry ∈ map := by
  unfold placeTriangulationCcyAtStart at h
  split at h
  · exact h
  next found hfound =>
    rcases List.mem_cons.mp h with rfl | h
    · exact List.mem_of_find?_eq_some hfound
    · exact List.mem_of_mem_filter h

/-- The map lists the calculators of the transactions. -/
theorem mem_getTrxMapByCcy {trxs : List ReportTrx} {symb : String}
    {calculators : List TrxPriceCalculator} {calculator : TrxPriceCalculator}
    (hentry : (symb, calculators) ∈ getTrxMapByCcy env trxs)
    (hcalculator : calculator ∈ calculators) :
    ∃ trx i, trxs[i]? = some trx ∧ (symb, calculator) ∈ ccyCalculators env trx i := by
  have hmem := mem_foldl_setCcyCalculator (mem_placeTriangulationCcyAtStart hentry) hcalculator
  simp only [List.not_mem_nil, false_and, exists_false, or_false, List.mem_flatMap] at hmem
  obtain ⟨⟨trx, i⟩, htrx, hcalculators⟩ := hmem
  exact ⟨trx, i, List.mem_zipIdx_iff_getElem?.mp htrx, hcalculators⟩

theorem trx_of_mem_ccyCalculators {trx : ReportTrx} {i : ℕ} {symb : String}
    {calculator : TrxPriceCalculator} (h : (symb, calculator) ∈ ccyCalculators env trx i) :
    calculator.trx = i := by
  unfold ccyCalculators at h
  grind

/-- The first symbol is converted where the last one is the dollar. -/
theorem convPricePropName_of_usd {trx : ReportTrx} {i : ℕ} {symb : String}
    {calculator : TrxPriceCalculator} (husd : trx.lastSymb = "USD")
    (h : (symb, calculator) ∈ ccyCalculators env trx i) :
    calculator.convPricePropName = .firstSymbPriceUsd := by
  have hlast : normalizeSymb "USD" = "USD" := by decide +kernel
  have hpriority : ∀ symb, hasPriority "USD" symb = false := fun _ => rfl
  unfold ccyCalculators at h
  rw [husd, hlast] at h
  simp only [hpriority] at h
  grind

end Lemmas

end ReportsFramework
