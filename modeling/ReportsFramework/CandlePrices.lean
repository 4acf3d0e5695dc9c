/-
The price of a currency in USD on the two ways of the currency converter: from the candles that
are loaded for a range before, and from the database pair by pair.
-/
import Mathlib.Algebra.Order.Field.Rat
import Mathlib.Data.List.Sort
import ReportsFramework.CandleCoverage

namespace ReportsFramework

namespace CandlePrices

open CandleCoverage

/-- What the converter reads of a stored candle. -/
structure Candle where
  mts : ℤ
  close : ℚ
  _symbol : String
  _timeframe : String
deriving DecidableEq

/-- The unique index of the table. -/
def Unique (table : List Candle) : Prop :=
  ∀ c ∈ table, ∀ d ∈ table, c._symbol = d._symbol → c._timeframe = d._timeframe → c.mts = d.mts →
    c = d

/-- The order of the collection. -/
def newestFirst (candles : List Candle) : List Candle :=
  candles.insertionSort fun c d => d.mts ≤ c.mts

/-- A price from two others, none of which may be missing or 0. -/
def ratioOf (priceIn priceOut : Option ℚ) : Option ℚ :=
  match priceIn, priceOut with
  | some priceIn, some priceOut =>
      if priceIn = 0 ∨ priceOut = 0 then none else some (priceOut / priceIn)
  | _, _ => none

section Finder

variable (env : Env)

/-- `getSynonymous` with the conversions. -/
def synonymousConversions (symbol : String) : List (String × ℚ) :=
  let (firstSymb, lastSymb) := env.splitSymbolPairs symbol
  let pairOf (symb : String) :=
    flagOf symbol ++ symb ++ separatorOf (symb ≠ "" && lastSymb ≠ "" &&
      (3 < symb.length || 3 < lastSymb.length)) ++ lastSymb
  ((env.currenciesSynonymous firstSymb).getD []).flatMap fun (symb, conversion) =>
    (pairOf symb, conversion) ::
      (if 4 ≤ symb.length && (cutF0? symb).isSome then
        [(pairOf (getConvertingSymb symb), conversion)] else [])

/-- The conversions are finite, so that the first finite price counts. -/
def priceFinder (finderFn : String → Option ℚ) (reqSymb : String) : Option ℚ :=
  let symbol := getPairFromPair env reqSymb
  match finderFn symbol with
  | some price => some price
  | none =>
      (synonymousConversions env symbol).findSome? fun (symb, conversion) =>
        (finderFn symb).map (· * conversion)

end Finder

section Data

def candlesTimeframe : String := "1D"

/-- One day before the start, unless there is none. -/
def firstMts (start : ℤ) : ℤ := if start = 0 then start else start - 86400000

def getCandles (table : List Candle) (start stop : ℤ) : List Candle :=
  newestFirst (table.filter fun c =>
    c._timeframe = candlesTimeframe ∧ c.mts ≤ stop ∧ firstMts start ≤ c.mts)

def findCandle (candles : List Candle) (symbol : String) (stop : ℤ) : Option Candle :=
  candles.find? fun c => c._symbol = symbol ∧ c.mts ≤ stop

def findCandlesPrice (candles : List Candle) (symbol : String) (stop : ℤ) : Option ℚ :=
  (findCandle candles symbol stop).map Candle.close

def getCandlesPriceFromData (env : Env) (candles : List Candle) (symbol : String) (stop : ℤ) :
    Option ℚ :=
  let (firstSymb, lastSymb) := env.splitSymbolPairs symbol
  if firstSymb ≠ "" ∧ firstSymb = lastSymb then some 1
  else if firstSymb ∈ env.forexSymbs.filter fun s => s ≠ lastSymb then
    ratioOf (findCandlesPrice candles ("tBTC" ++ firstSymb) stop)
      (findCandlesPrice candles ("tBTC" ++ lastSymb) stop)
  else findCandlesPrice candles symbol stop

/-- The price of a currency in `convertManyByCandles`. -/
def priceFromData (env : Env) (candles : List Candle) (currency : String) (mts : ℤ) : Option ℚ :=
  let symbol := getConvertingSymb currency
  if symbol = "USD" then some 1
  else priceFinder env (fun symb => getCandlesPriceFromData env candles symb mts)
    ("t" ++ symbol ++ "USD")

end Data

section Database

/-- The first of the candles of a pair in the order of the collection. -/
def getElemInCollBy (table : List Candle) (symbol : String) (stop : ℤ) : Option Candle :=
  (newestFirst (table.filter fun c => c._symbol = symbol ∧ c.mts ≤ stop)).head?

def getCandleClosedPrice (env : Env) (table : List Candle) (reqSymb : String) (stop : ℤ) :
    Option ℚ :=
  (getElemInCollBy table (getPairFromPair env reqSymb) stop).map Candle.close

def getPrice (env : Env) (table : List Candle) (symb : String) (stop : ℤ) : Option ℚ :=
  if symb ∈ env.forexSymbs.filter fun s => s ≠ "USD" then
    ratioOf (getCandleClosedPrice env table ("tBTC" ++ symb) stop)
      (getCandleClosedPrice env table ("tBTC" ++ "USD") stop)
  else if "USD" ∉ env.forexSymbs then
    -- the quotient of the prices in USD
    ratioOf (getCandleClosedPrice env table ("t" ++ "USD" ++ "USD") stop)
      (getCandleClosedPrice env table ("t" ++ symb ++ "USD") stop)
  else getCandleClosedPrice env table (getPair symb) stop

/-- The price of a currency in `convertByCandles`. -/
def priceFromDatabase (env : Env) (table : List Candle) (currency : String) (mts : ℤ) :
    Option ℚ :=
  let symbol := getConvertingSymb currency
  if symbol = "USD" then some 1
  else priceFinder env (fun symb => getPrice env table symb mts) symbol

end Database

section Candles

theorem mem_newestFirst {candles : List Candle} {c : Candle} :
    c ∈ newestFirst candles ↔ c ∈ candles :=
  (List.perm_insertionSort _ candles).mem_iff

theorem pairwise_newestFirst (candles : List Candle) :
    (newestFirst candles).Pairwise fun c d => d.mts ≤ c.mts := by
  have htotal : Std.Total fun c d : Candle => d.mts ≤ c.mts := ⟨fun c d => le_total d.mts c.mts⟩
  have htrans : IsTrans Candle fun c d => d.mts ≤ c.mts := ⟨fun _ _ _ h h' => le_trans h' h⟩
  exact List.pairwise_insertionSort _ candles

theorem mem_getCandles {table : List Candle} {start stop : ℤ} {c : Candle} :
    c ∈ getCandles table start stop ↔ c ∈ table ∧ c._timeframe = candlesTimeframe ∧
      c.mts ≤ stop ∧ firstMts start ≤ c.mts := by
  rw [getCandles, mem_newestFirst, List.mem_filter, decide_eq_true_iff]

/-- The database gives a latest candle of the pair at the time. -/
theorem getElemInCollBy_spec {table : List Candle} {symbol : String} {t : ℤ} {c : Candle}
    (h : getElemInCollBy table symbol t = some c) :
    (c ∈ table ∧ c._symbol = symbol ∧ c.mts ≤ t) ∧
      ∀ d ∈ table, d._symbol = symbol → d.mts ≤ t → d.mts ≤ c.mts := by
  rw [getElemInCollBy, List.head?_eq_some_iff] at h
  obtain ⟨rest, hcandles⟩ := h
  have hmem : ∀ d, d ∈ c :: rest ↔ d ∈ table ∧ d._symbol = symbol ∧ d.mts ≤ t := by
    intro d
    rw [← hcandles, mem_newestFirst, List.mem_filter, decide_eq_true_iff]
  have hsorted := pairwise_newestFirst (table.filter fun c => c._symbol = symbol ∧ c.mts ≤ t)
  rw [hcandles, List.pairwise_cons] at hsorted
  constructor
  · exact (hmem c).mp List.mem_cons_self
  · intro d hd hsymbol hle
    rcases List.mem_cons.mp ((hmem d).mpr ⟨hd, hsymbol, hle⟩) with rfl | hrest
    · exact le_rfl
    · exact hsorted.1 d hrest

theorem getElemInCollBy_eq_none {table : List Candle} {symbol : String} {t : ℤ} :
    getElemInCollBy table symbol t = none ↔
      ∀ d ∈ table, d._symbol = symbol → ¬ d.mts ≤ t := by
  rw [getElemInCollBy, List.head?_eq_none_iff, List.eq_nil_iff_forall_not_mem]
  simp only [mem_newestFirst, List.mem_filter, decide_eq_true_eq, not_and]

/-- The loaded candles give a latest of them. -/
theorem findCandle_spec {table : List Candle} {start stop t : ℤ} {symbol : String} {c : Candle}
    (h : findCandle (getCandles table start stop) symbol t = some c) :
    (c ∈ getCandles table start stop ∧ c._symbol = symbol ∧ c.mts ≤ t) ∧
      ∀ d ∈ getCandles table start stop, d._symbol = symbol → d.mts ≤ t → d.mts ≤ c.mts := by
  rw [findCandle, List.find?_eq_some_iff_append] at h
  obtain ⟨hc, newer, older, hcandles, hnewer⟩ := h
  have hsorted := pairwise_newestFirst (table.filter fun c =>
    c._timeframe = candlesTimeframe ∧ c.mts ≤ stop ∧ firstMts start ≤ c.mts)
  rw [← getCandles, hcandles, List.pairwise_append, List.pairwise_cons] at hsorted
  rw [decide_eq_true_iff] at hc
  constructor
  · exact ⟨by rw [hcandles]; simp, hc⟩
  · intro d hd hsymbol hle
    rw [hcandles, List.mem_append, List.mem_cons] at hd
    rcases hd with hd | rfl | hd
    · exact absurd (hnewer d hd) (by simp [hsymbol, hle])
    · exact le_rfl
    · exact hsorted.2.1.1 d hd

/-- The latest stored candle of a pair is one of a day, and not before those that are loaded. -/
def Current (table : List Candle) (start : ℤ) (t : ℤ) (symbol : String) : Prop :=
  ∀ c ∈ getElemInCollBy table symbol t,
    c._timeframe = candlesTimeframe ∧ firstMts start ≤ c.mts

/-- Both ways come to the same candle of a pair exactly if its latest is among the loaded. -/
theorem findCandle_eq_iff {table : List Candle} (hunique : Unique table) {start stop t : ℤ}
    (hstop : t ≤ stop) (symbol : String) :
    findCandle (getCandles table start stop) symbol t = getElemInCollBy table symbol t ↔
      Current table start t symbol := by
  constructor
  · intro h c hc
    rw [Option.mem_def, ← h] at hc
    have hmem := mem_getCandles.mp (findCandle_spec hc).1.1
    exact ⟨hmem.2.1, hmem.2.2.2⟩
  · intro hcurrent
    cases helem : getElemInCollBy table symbol t with
    | none =>
      rw [findCandle, List.find?_eq_none]
      intro d hd
      have hnone := getElemInCollBy_eq_none.mp helem d (mem_getCandles.mp hd).1
      simpa using hnone
    | some c =>
      obtain ⟨⟨hc, hsymbol, hle⟩, hlatest⟩ := getElemInCollBy_spec helem
      obtain ⟨htimeframe, hfirst⟩ := hcurrent c helem
      have hloaded : c ∈ getCandles table start stop :=
        mem_getCandles.mpr ⟨hc, htimeframe, hle.trans hstop, hfirst⟩
      cases hfind : findCandle (getCandles table start stop) symbol t with
      | none =>
        rw [findCandle, List.find?_eq_none] at hfind
        exact absurd (hfind c hloaded) (by simp [hsymbol, hle])
      | some d =>
        obtain ⟨⟨hd, hsymbol', hle'⟩, hlatest'⟩ := findCandle_spec hfind
        obtain ⟨hd, htimeframe', -, -⟩ := mem_getCandles.mp hd
        have hmts : d.mts = c.mts :=
          le_antisymm (hlatest d hd hsymbol' hle') (hlatest' c hloaded hsymbol hle)
        rw [hunique d hd c hc (hsymbol'.trans hsymbol.symm) (htimeframe'.trans htimeframe.symm)
          hmts]

end Candles

section Pairs

/-- `t`, the currency and USD. -/
def pairOf (symb : String) : String := "t" ++ symb ++ separatorOf (3 < symb.length) ++ "USD"

theorem flagOf_t (rest : String) : flagOf ("t" ++ rest) = "t" := by
  simp [flagOf]

theorem flagOf_pairOf (symb : String) : flagOf (pairOf symb) = "t" := by
  rw [pairOf, String.append_assoc, String.append_assoc]
  exact flagOf_t _

theorem getPair_eq (symb : String) : getPair symb = pairOf (getConvertingSymb symb) := rfl

theorem getConvertingSymb_usd : getConvertingSymb "USD" = "USD" := rfl

theorem getPairFromPair_of_short {env : Env} {symbol : String} (h : symbol.length < 8) :
    getPairFromPair env symbol = symbol := by
  simp [getPairFromPair, h]

theorem length_pairOf_of_short {symb : String} (h : symb.length ≤ 3) :
    pairOf symb = "t" ++ symb ++ "USD" ∧ (pairOf symb).length < 8 := by
  have hpair : pairOf symb = "t" ++ symb ++ "USD" := by
    simp [pairOf, separatorOf, h]
  rw [hpair]
  refine ⟨rfl, ?_⟩
  simp only [String.length_append]
  have ht : "t".length = 1 := rfl
  have husd : "USD".length = 3 := rfl
  omega

/-- A text that is split into a currency and USD is the pair of the currency. -/
theorem getPairFromPair_of_split {env : Env} {rest symb : String}
    (hlong : 8 ≤ ("t" ++ rest).length)
    (hsplit : env.splitSymbolPairs ("t" ++ rest) = (symb, "USD")) :
    getPairFromPair env ("t" ++ rest) = pairOf (getConvertingSymb symb) := by
  have hflag : flagOf ("t" ++ rest) = "t" := flagOf_t rest
  have hnot : ¬ ("t" ++ rest).length < 8 := by omega
  have husd : "USD".length = 3 := rfl
  rw [getPairFromPair, hsplit, hflag, if_neg (by simp [-String.length_append, hnot])]
  have hnever : decide (3 < 3) = false := rfl
  simp only [getConvertingSymb_usd, pairOf, husd, hnever, Bool.or_false]

theorem getPairFromPair_pairOf {env : Env} {symb : String}
    (hsplit : env.splitSymbolPairs (pairOf symb) = (symb, "USD"))
    (hconv : getConvertingSymb symb = symb) : getPairFromPair env (pairOf symb) = pairOf symb := by
  by_cases hshort : (pairOf symb).length < 8
  · exact getPairFromPair_of_short hshort
  · have hpair : pairOf symb = "t" ++ (symb ++ separatorOf (3 < symb.length) ++ "USD") := by
      simp only [pairOf, String.append_assoc]
    rw [hpair] at hsplit hshort
    rw [hpair, getPairFromPair_of_split (by omega) hsplit, hconv, hpair]

theorem getPairFromPair_joined {env : Env} {symb : String}
    (hjoined : env.splitSymbolPairs ("t" ++ symb ++ "USD") = (symb, "USD")) :
    getPairFromPair env ("t" ++ symb ++ "USD") = pairOf (getConvertingSymb symb) := by
  by_cases hshort : symb.length ≤ 3
  · have hconv : getConvertingSymb symb = symb := by
      rw [getConvertingSymb, if_pos (by omega)]
    obtain ⟨hpair, hlength⟩ := length_pairOf_of_short hshort
    rw [hconv, ← hpair]
    exact getPairFromPair_of_short hlength
  · have hlong : 8 ≤ ("t" ++ (symb ++ "USD")).length := by
      simp only [String.length_append]
      have ht : "t".length = 1 := rfl
      have husd : "USD".length = 3 := rfl
      omega
    rw [String.append_assoc] at hjoined ⊢
    exact getPairFromPair_of_split hlong hjoined

theorem getPairFromPair_btc {env : Env} {symb : String} (h : symb.length ≤ 3) :
    getPairFromPair env ("tBTC" ++ symb) = "tBTC" ++ symb := by
  apply getPairFromPair_of_short
  have hbtc : "tBTC".length = 4 := rfl
  rw [String.length_append, hbtc]
  omega

end Pairs

section Prices

variable {env : Env} {table : List Candle} {start stop t : ℤ}

theorem findCandlesPrice_eq (hunique : Unique table) (hstop : t ≤ stop) {symbol : String}
    (hcurrent : Current table start t symbol) (hpair : getPairFromPair env symbol = symbol) :
    findCandlesPrice (getCandles table start stop) symbol t =
      getCandleClosedPrice env table symbol t := by
  rw [findCandlesPrice, getCandleClosedPrice, hpair, (findCandle_eq_iff hunique hstop symbol).mpr
    hcurrent]

/-- The same candles are looked up for a currency on both ways: what is left of it without
`F0` is not USD, does not end in `F0` again and is no forex currency, and the latest candles of its
pairs are loaded. -/
structure SamePair (env : Env) (table : List Candle) (start t : ℤ) (symb : String) : Prop where
  usd : getConvertingSymb symb ≠ "USD"
  once : getConvertingSymb (getConvertingSymb symb) = getConvertingSymb symb
  forex : getConvertingSymb symb ≠ symb → getConvertingSymb symb ∉ env.forexSymbs
  current : ∀ pair ∈ candleSymbs env symb, Current table start t pair

theorem getConvertingSymb_of_forex (hforex : ∀ symb ∈ env.forexSymbs, symb.length ≤ 3)
    {symb : String} (hsymb : symb ∈ env.forexSymbs) : getConvertingSymb symb = symb := by
  have hshort := hforex symb hsymb
  rw [getConvertingSymb, if_pos (by omega)]

/-- Both ways find the same price for the pair of a currency. -/
theorem price_eq (hunique : Unique table) (hstop : t ≤ stop) (husd : "USD" ∈ env.forexSymbs)
    (hforex : ∀ symb ∈ env.forexSymbs, symb.length ≤ 3) {symb : String}
    (hsplit : env.splitSymbolPairs (pairOf (getConvertingSymb symb)) =
      (getConvertingSymb symb, "USD"))
    (hsame : SamePair env table start t symb) :
    getCandlesPriceFromData env (getCandles table start stop) (pairOf (getConvertingSymb symb)) t =
      getPrice env table symb t := by
  have hcurrent := hsame.current
  simp only [getCandlesPriceFromData, hsplit, getPrice]
  rw [if_neg (by simp [hsame.usd])]
  by_cases hsymb : symb ∈ env.forexSymbs
  · have hconv := getConvertingSymb_of_forex hforex hsymb
    have hne : symb ≠ "USD" := hconv ▸ hsame.usd
    have hmem : symb ∈ env.forexSymbs.filter fun s => s ≠ "USD" := by simp [hsymb, hne]
    have husdPair : getPairFromPair env "tBTCUSD" = "tBTCUSD" :=
      getPairFromPair_of_short (by decide)
    have hpairs : candleSymbs env symb = ["tBTC" ++ symb, "tBTC" ++ "USD"] := by
      simp [candleSymbs, hsymb, hne, getPairFromPair_btc (hforex symb hsymb), husdPair]
    rw [hpairs] at hcurrent
    rw [hconv, if_pos hmem, if_pos hmem,
      findCandlesPrice_eq hunique hstop (hcurrent _ (by simp))
        (getPairFromPair_btc (hforex symb hsymb)),
      findCandlesPrice_eq hunique hstop (hcurrent _ (by simp))
        (getPairFromPair_btc (hforex _ husd))]
  · have hmem : symb ∉ env.forexSymbs.filter fun s => s ≠ "USD" := by simp [hsymb]
    have hconvMem : getConvertingSymb symb ∉ env.forexSymbs := by
      by_cases hconv : getConvertingSymb symb = symb
      · rwa [hconv]
      · exact hsame.forex hconv
    have hpair : getPairFromPair env (getPair symb) = pairOf (getConvertingSymb symb) := by
      rw [getPair_eq, getPairFromPair_pairOf hsplit hsame.once]
    have hpairs : candleSymbs env symb = [pairOf (getConvertingSymb symb)] := by
      simp [candleSymbs, hsymb, husd, hpair]
    rw [hpairs] at hcurrent
    rw [if_neg (by simp [hconvMem]), if_neg hmem, if_neg (by simpa using husd), getPair_eq]
    exact findCandlesPrice_eq hunique hstop (hcurrent _ (by simp))
      (getPairFromPair_pairOf hsplit hsame.once)

end Prices

section Finders

/-- What the configuration and `splitSymbolPairs`, which is no code of this repository, do with
a currency and its synonyms. -/
structure Documented (env : Env) (symbol : String) : Prop where
  usd : "USD" ∈ env.forexSymbs
  forex : ∀ symb ∈ env.forexSymbs, symb.length ≤ 3
  joined : env.splitSymbolPairs ("t" ++ symbol ++ "USD") = (symbol, "USD")
  pairs : ∀ symb ∈ symbol :: synonyms env symbol,
    env.splitSymbolPairs (pairOf symb) = (symb, "USD") ∧
      env.splitSymbolPairs (pairOf (getConvertingSymb symb)) = (getConvertingSymb symb, "USD")

/-- A synonym is looked up alike on both ways: it is not USD, does not end in `F0` twice, there
are no candles to find under its pair as it is written with `F0`, nor under that of a forex
currency without it, and the latest candles of its pairs are loaded. -/
structure SameSynonym (env : Env) (table : List Candle) (start stop t : ℤ) (symb : String) :
    Prop where
  usd : getConvertingSymb symb ≠ "USD"
  once : getConvertingSymb (getConvertingSymb symb) = getConvertingSymb symb
  f0 : getConvertingSymb symb ≠ symb →
    findCandle (getCandles table start stop) (pairOf symb) t = none ∧
      (getConvertingSymb symb ∈ env.forexSymbs →
        getElemInCollBy table (pairOf (getConvertingSymb symb)) t = none)
  current : ∀ pair ∈ candleSymbs env (getConvertingSymb symb), Current table start t pair

/-- Both ways go through the synonyms of the currency itself: it is not taken for a pair and does
not end in `F0` again; and each of its synonyms in turn is looked up alike, until one has a
price. -/
structure SameSynonyms (env : Env) (table : List Candle) (start stop t : ℤ) (symbol : String) :
    Prop where
  bare : flagOf symbol = "" ∧ env.splitSymbolPairs symbol = (symbol, "")
  once : getConvertingSymb symbol = symbol
  synonym : ∀ before symb after, synonyms env symbol = before ++ symb :: after →
    (∀ symb' ∈ before, getPrice env table symb' t = none ∧
      getPrice env table (getConvertingSymb symb') t = none) →
    SameSynonym env table start stop t symb

/-- A currency is looked up alike on both ways: the same candles for its own pair, and if it has
no price, the same synonyms or none on both. -/
structure SameLookUps (env : Env) (table : List Candle) (start stop t : ℤ) (symbol : String) :
    Prop where
  own : getPairFromPair env symbol = symbol ∧ SamePair env table start t symbol
  synonyms : getPrice env table symbol t = none →
    (synonyms env (getConvertingSymb symbol) = [] ∧
      synonyms env (env.splitSymbolPairs symbol).1 = []) ∨
    SameSynonyms env table start stop t symbol

variable {env : Env}

/-- A synonym, and behind it the one without `F0`. -/
def entriesOf (nameOf : String → String) (entry : String × ℚ) : List (String × ℚ) :=
  (nameOf entry.1, entry.2) ::
    (if 4 ≤ entry.1.length && (cutF0? entry.1).isSome then
      [(nameOf (getConvertingSymb entry.1), entry.2)] else [])

theorem synonymousConversions_pairOf {symbol : String}
    (hsplit : env.splitSymbolPairs (pairOf symbol) = (symbol, "USD")) :
    synonymousConversions env (pairOf symbol) =
      ((env.currenciesSynonymous symbol).getD []).flatMap (entriesOf pairOf) := by
  have hpair : ∀ symb : String, flagOf (pairOf symbol) ++ symb ++
      separatorOf (symb ≠ "" && "USD" ≠ "" && (3 < symb.length || 3 < "USD".length)) ++ "USD" =
        pairOf symb := by
    intro symb
    have husd : "USD".length = 3 := rfl
    rw [flagOf_pairOf, pairOf, husd]
    by_cases hlong : 3 < symb.length
    · have hne : symb ≠ "" := by
        rintro rfl
        simp at hlong
      simp [hlong, hne]
    · simp [hlong]
  simp only [synonymousConversions, hsplit, hpair]
  rfl

theorem synonymousConversions_bare {symbol : String} (hflag : flagOf symbol = "")
    (hsplit : env.splitSymbolPairs symbol = (symbol, "")) :
    synonymousConversions env symbol =
      ((env.currenciesSynonymous symbol).getD []).flatMap (entriesOf id) := by
  simp only [synonymousConversions, hsplit, hflag]
  congr 1
  funext entry
  simp [separatorOf, entriesOf]

/-- Parts that find the same as long as nothing was found before find the same together. -/
theorem findSome?_flatMap_congr {α β γ δ : Type*} {f : α → List β} {f' : α → List δ}
    {g : β → Option γ} {g' : δ → Option γ} {xs : List α}
    (h : ∀ before x after, xs = before ++ x :: after →
      (∀ y ∈ before, (f' y).findSome? g' = none) → (f x).findSome? g = (f' x).findSome? g') :
    (xs.flatMap f).findSome? g = (xs.flatMap f').findSome? g' := by
  induction xs with
  | nil => rfl
  | cons x xs ih =>
    rw [List.flatMap_cons, List.flatMap_cons, List.findSome?_append, List.findSome?_append,
      h [] x xs rfl (by simp)]
    cases hx : (f' x).findSome? g' with
    | some found => rfl
    | none =>
      rw [Option.none_or, Option.none_or]
      apply ih
      intro before y after hxs hbefore
      apply h (x :: before) y after (by rw [hxs, List.cons_append])
      intro y' hy'
      rcases List.mem_cons.mp hy' with rfl | hy'
      · exact hx
      · exact hbefore y' hy'

theorem synonymousConversions_eq_nil {symbol : String}
    (h : synonyms env (env.splitSymbolPairs symbol).1 = []) :
    synonymousConversions env symbol = [] := by
  rw [synonyms, List.map_eq_nil_iff] at h
  simp only [synonymousConversions, h, List.flatMap_nil]

theorem hasF0_iff (symb : String) :
    (4 ≤ symb.length && (cutF0? symb).isSome) = true ↔ getConvertingSymb symb ≠ symb := by
  have hcut : ∀ symb', cutF0? symb = some symb' → symb' ≠ symb := by
    rintro symb' hcut rfl
    unfold cutF0? at hcut
    split at hcut
    · rename_i c rest hreverse
      split_ifs at hcut
      have hlength := congrArg String.length (Option.some.inj hcut)
      have hreverse := congrArg List.length hreverse
      simp at hlength hreverse
      rw [String.length_toList] at hreverse
      omega
    · simp at hcut
  rw [Bool.and_eq_true, decide_eq_true_iff, getConvertingSymb, replaceF0]
  by_cases hshort : symb.length < 4
  · simp [hshort]
  · rw [if_neg hshort]
    cases hsome : cutF0? symb with
    | none => simp
    | some symb' => simpa [hcut symb' hsome] using hshort

theorem entriesOf_of_eq {nameOf : String → String} {symb : String} {conversion : ℚ}
    (h : getConvertingSymb symb = symb) :
    entriesOf nameOf (symb, conversion) = [(nameOf symb, conversion)] := by
  rw [entriesOf, if_neg fun hsome => (hasF0_iff symb).mp hsome h]

theorem entriesOf_of_ne {nameOf : String → String} {symb : String} {conversion : ℚ}
    (h : getConvertingSymb symb ≠ symb) : entriesOf nameOf (symb, conversion) =
      [(nameOf symb, conversion), (nameOf (getConvertingSymb symb), conversion)] := by
  rw [entriesOf, if_pos ((hasF0_iff symb).mpr h)]

end Finders

section Synonyms

variable {env : Env} {table : List Candle} {start stop t : ℤ} {symbol symb : String}

/-- What is written with `F0` has no price on the way over the loaded candles. -/
theorem getCandlesPriceFromData_f0 (hdoc : Documented env symbol)
    (hsymb : symb ∈ synonyms env symbol) (hsame : SameSynonym env table start stop t symb)
    (hf0 : getConvertingSymb symb ≠ symb) :
    getCandlesPriceFromData env (getCandles table start stop) (pairOf symb) t = none := by
  have hne : symb ≠ "USD" := by
    rintro rfl
    exact hf0 rfl
  have hforex : symb ∉ env.forexSymbs := fun hmem =>
    hf0 (getConvertingSymb_of_forex hdoc.forex hmem)
  simp only [getCandlesPriceFromData, (hdoc.pairs symb (List.mem_cons_of_mem _ hsymb)).1]
  rw [if_neg (by simp [hne]), if_neg (by simp [hforex]), findCandlesPrice, (hsame.f0 hf0).1,
    Option.map_none]

/-- What is written with `F0` has the price of what is written without it in the database, or
none. -/
theorem getPrice_f0 (hdoc : Documented env symbol) (hsymb : symb ∈ synonyms env symbol)
    (hsame : SameSynonym env table start stop t symb) (hf0 : getConvertingSymb symb ≠ symb) :
    getPrice env table symb t = none ∨
      getPrice env table symb t = getPrice env table (getConvertingSymb symb) t := by
  have hforex : symb ∉ env.forexSymbs := fun hmem =>
    hf0 (getConvertingSymb_of_forex hdoc.forex hmem)
  have hprice : getPrice env table symb t =
      getCandleClosedPrice env table (pairOf (getConvertingSymb symb)) t := by
    rw [getPrice, if_neg (by simp [hforex]), if_neg (by simpa using hdoc.usd), getPair_eq]
  by_cases hmem : getConvertingSymb symb ∈ env.forexSymbs
  · left
    rw [hprice, getCandleClosedPrice, getPairFromPair_pairOf
      (hdoc.pairs symb (List.mem_cons_of_mem _ hsymb)).2 hsame.once, (hsame.f0 hf0).2 hmem,
      Option.map_none]
  · right
    rw [hprice, getPrice, if_neg (by simp [hmem]), if_neg (by simpa using hdoc.usd), getPair_eq,
      hsame.once]

/-- The price of a synonym, with or without `F0`, is the same on both ways. -/
theorem price_withoutF0 (hunique : Unique table) (hstop : t ≤ stop) (hdoc : Documented env symbol)
    (hsymb : symb ∈ synonyms env symbol) (hsame : SameSynonym env table start stop t symb) :
    getCandlesPriceFromData env (getCandles table start stop) (pairOf (getConvertingSymb symb)) t =
      getPrice env table (getConvertingSymb symb) t := by
  have hpair : SamePair env table start t (getConvertingSymb symb) := by
    constructor
    · rw [hsame.once]
      exact hsame.usd
    · rw [hsame.once, hsame.once]
    · intro hne
      exact absurd hsame.once hne
    · exact hsame.current
  have hsplit := (hdoc.pairs symb (List.mem_cons_of_mem _ hsymb)).2
  have hprice := @price_eq env table start stop t hunique hstop hdoc.usd hdoc.forex
    (getConvertingSymb symb) (by rw [hsame.once]; exact hsplit) hpair
  rwa [hsame.once] at hprice

/-- The entries of a synonym find the same price on both ways. -/
theorem synonym_eq (hunique : Unique table) (hstop : t ≤ stop) (hdoc : Documented env symbol)
    (hsymb : symb ∈ synonyms env symbol) (hsame : SameSynonym env table start stop t symb)
    (conversion : ℚ) :
    (entriesOf pairOf (symb, conversion)).findSome? (fun (symb, conversion) =>
        (getCandlesPriceFromData env (getCandles table start stop) symb t).map (· * conversion)) =
      (entriesOf id (symb, conversion)).findSome? fun (symb, conversion) =>
        (getPrice env table symb t).map (· * conversion) := by
  have hprice := @price_withoutF0 env table start stop t symbol symb hunique hstop hdoc hsymb hsame
  by_cases hf0 : getConvertingSymb symb = symb
  · rw [entriesOf_of_eq hf0, entriesOf_of_eq hf0]
    rw [hf0] at hprice
    simp [hprice]
  · rw [entriesOf_of_ne hf0, entriesOf_of_ne hf0]
    have hdata := @getCandlesPriceFromData_f0 env table start stop t symbol symb hdoc hsymb hsame
      hf0
    rcases getPrice_f0 hdoc hsymb hsame hf0 with hnone | heq
    · simp [hprice, hdata, hnone]
    · simp only [List.findSome?_cons, hdata, hprice, id, heq, Option.map_none]
      cases getPrice env table (getConvertingSymb symb) t <;> rfl

end Synonyms

section Paths

variable {env : Env} {table : List Candle} {start stop t : ℤ}

/-- The first price counts, that of the symbol with the conversion 1. -/
theorem priceFinder_eq (finderFn : String → Option ℚ) (reqSymb : String) :
    priceFinder env finderFn reqSymb = (finderFn (getPairFromPair env reqSymb)).or
      ((synonymousConversions env (getPairFromPair env reqSymb)).findSome?
        fun (symb, conversion) => (finderFn symb).map (· * conversion)) := by
  rw [priceFinder]
  cases finderFn (getPairFromPair env reqSymb) <;> rfl

theorem mem_synonyms_of_entry {symbol : String} {entry : String × ℚ}
    (h : entry ∈ (env.currenciesSynonymous symbol).getD []) : entry.1 ∈ synonyms env symbol :=
  List.mem_map_of_mem h

/-- The synonyms of a currency find the same price on both ways. -/
theorem synonyms_agree (hunique : Unique table) (hstop : t ≤ stop) {symbol : String}
    (hdoc : Documented env symbol) (hsame : SameSynonyms env table start stop t symbol) :
    (synonymousConversions env (pairOf symbol)).findSome? (fun (symb, conversion) =>
        (getCandlesPriceFromData env (getCandles table start stop) symb t).map (· * conversion)) =
      (synonymousConversions env symbol).findSome? fun (symb, conversion) =>
        (getPrice env table symb t).map (· * conversion) := by
  rw [synonymousConversions_pairOf (hdoc.pairs symbol List.mem_cons_self).1,
    synonymousConversions_bare hsame.bare.1 hsame.bare.2]
  apply findSome?_flatMap_congr
  intro before entry after hentries hbefore
  have hentry : entry.1 ∈ synonyms env symbol := by
    apply mem_synonyms_of_entry
    rw [hentries]
    simp
  apply synonym_eq hunique hstop hdoc hentry
  apply hsame.synonym (before.map Prod.fst) entry.1 (after.map Prod.fst)
  · rw [synonyms, hentries, List.map_append, List.map_cons]
  · intro symb hsymb
    obtain ⟨entry', hentry', rfl⟩ := List.mem_map.mp hsymb
    have hnone := hbefore entry' hentry'
    by_cases hf0 : getConvertingSymb entry'.1 = entry'.1
    · rw [entriesOf_of_eq hf0] at hnone
      simpa [hf0] using hnone
    · rw [entriesOf_of_ne hf0] at hnone
      simpa using hnone

theorem priceFinder_agree (hunique : Unique table) (hstop : t ≤ stop) {symbol : String}
    (hdoc : Documented env symbol) (hsame : SameLookUps env table start stop t symbol) :
    priceFinder env (fun symb =>
        getCandlesPriceFromData env (getCandles table start stop) symb t) ("t" ++ symbol ++ "USD") =
      priceFinder env (fun symb => getPrice env table symb t) symbol := by
  have hsplit := (hdoc.pairs symbol List.mem_cons_self).2
  have hprice := @price_eq env table start stop t hunique hstop hdoc.usd hdoc.forex symbol hsplit
    hsame.own.2
  rw [priceFinder_eq, priceFinder_eq, getPairFromPair_joined hdoc.joined, hsame.own.1, hprice]
  cases hbase : getPrice env table symbol t with
  | some price => rfl
  | none =>
    rw [Option.none_or, Option.none_or]
    rcases hsame.synonyms hbase with ⟨hdata, hdatabase⟩ | hsynonyms
    · rw [synonymousConversions_eq_nil hdatabase, synonymousConversions_eq_nil]
      · rfl
      · rw [hsplit]
        exact hdata
    · rw [hsynonyms.once]
      exact synonyms_agree hunique hstop hdoc hsynonyms

/-- Both ways take the same candle of a pair exactly if the latest is a loaded one; and they come
to the same price of a currency, as long as the names and pairs that they come to are looked up
alike. -/
theorem priceFromData_agrees (hunique : Unique table) (hstop : t ≤ stop) :
    (∀ pair, findCandle (getCandles table start stop) pair t = getElemInCollBy table pair t ↔
        Current table start t pair) ∧
      ∀ currency, Documented env (getConvertingSymb currency) →
        (getConvertingSymb currency ≠ "USD" →
          SameLookUps env table start stop t (getConvertingSymb currency)) →
        priceFromData env (getCandles table start stop) currency t =
          priceFromDatabase env table currency t := by
  constructor
  · exact findCandle_eq_iff hunique hstop
  · intro currency hdoc hsame
    simp only [priceFromData, priceFromDatabase]
    split_ifs with husd
    · rfl
    · exact priceFinder_agree hunique hstop hdoc (hsame husd)

end Paths

end CandlePrices

namespace CandlePricesWitness

open CandleCoverage CandlePrices

def splitSymbolPairs (symbol : String) : String × String :=
  if symbol = "tUSTUSD" then ("UST", "USD")
  else if symbol = "tDAIUSD" then ("DAI", "USD")
  else if symbol = "tPLANETSUSD" ∨ symbol = "tPLANETS:USD" then ("PLANETS", "USD")
  else if symbol = "PLANETS" then ("PLAN", "ETS")
  else (symbol, "")

/-- DAI is a synonym of UST. -/
def env : Env where
  forexSymbs := ["USD", "EUR"]
  splitSymbolPairs := splitSymbolPairs
  currenciesSynonymous symbol := if symbol = "UST" then some [("DAI", 2)] else none

/-- One candle of a day and a later one of an hour. -/
def table : List Candle := [⟨0, 10, "tUSTUSD", "1D"⟩, ⟨3600000, 11, "tUSTUSD", "1h"⟩]

/-- The database takes the candle of the hour, and a candle of a day that is older than the loaded
ones. -/
theorem prices_differ :
    (priceFromData env (getCandles table 7200000 7200000) "UST" 7200000 = some 10 ∧
      priceFromDatabase env table "UST" 7200000 = some 11) ∧
    (priceFromData env (getCandles (table.take 1) 259200000 259200000) "UST" 259200000 = none ∧
      priceFromDatabase env (table.take 1) "UST" 259200000 = some 10) := by
  decide +kernel

/-- A candle of the synonym only, and one of a currency that is taken for a pair. -/
def daily : List Candle := [⟨0, 10, "tDAIUSD", "1D"⟩, ⟨0, 7, "tPLANETS:USD", "1D"⟩]

theorem unique_daily : Unique daily := by
  intro c hc d hd hsymbol _ _
  simp only [daily, List.mem_cons, List.not_mem_nil, or_false] at hc hd
  rcases hc with rfl | rfl <;> rcases hd with rfl | rfl <;> simp_all

theorem current_daily (pair : String) : Current daily 3600000 3600000 pair := by
  intro c hc
  have hmem := (getElemInCollBy_spec hc).1.1
  simp only [daily, List.mem_cons, List.not_mem_nil, or_false] at hmem
  rcases hmem with rfl | rfl <;> decide

theorem documented_ust : Documented env "UST" := by
  have hsynonyms : "UST" :: synonyms env "UST" = ["UST", "DAI"] := by decide +kernel
  constructor
  · decide
  · decide
  · decide +kernel
  · rw [hsynonyms]
    decide +kernel

theorem documented_planets : Documented env "PLANETS" := by
  have hsynonyms : "PLANETS" :: synonyms env "PLANETS" = ["PLANETS"] := by decide +kernel
  constructor
  · decide
  · decide
  · decide +kernel
  · rw [hsynonyms]
    decide +kernel

theorem sameSynonyms_ust : SameSynonyms env daily 3600000 7200000 3600000 "UST" := by
  have hdai : getConvertingSymb "DAI" = "DAI" := rfl
  refine ⟨by decide +kernel, rfl, ?_⟩
  intro before symb after hsplit _
  have hsymb : symb = "DAI" := by
    have hmem : symb ∈ synonyms env "UST" := by
      rw [hsplit]
      simp
    have hsynonyms : synonyms env "UST" = ["DAI"] := by decide +kernel
    rw [hsynonyms] at hmem
    exact List.mem_singleton.mp hmem
  subst hsymb
  exact ⟨by decide +kernel, rfl, fun hf0 => absurd hdai hf0, fun pair _ => current_daily pair⟩

theorem priceFromData_agrees_daily :
    (priceFromData env (getCandles daily 3600000 7200000) "UST" 3600000 =
      priceFromDatabase env daily "UST" 3600000) ∧
    priceFromData env (getCandles daily 3600000 7200000) "PLANETS" 3600000 =
      priceFromDatabase env daily "PLANETS" 3600000 := by
  have hust : getConvertingSymb "UST" = "UST" := rfl
  have hplanets : getConvertingSymb "PLANETS" = "PLANETS" := by decide +kernel
  have hagree := @priceFromData_agrees env daily 3600000 7200000 3600000 unique_daily (by decide)
  constructor
  · apply hagree.2 "UST"
    · rw [hust]
      exact documented_ust
    · rw [hust]
      intro husd
      exact ⟨⟨by decide +kernel, husd, rfl, fun hne => absurd rfl hne,
        fun pair _ => current_daily pair⟩, fun _ => .inr sameSynonyms_ust⟩
  · apply hagree.2 "PLANETS"
    · rw [hplanets]
      exact documented_planets
    · rw [hplanets]
      intro husd
      refine ⟨⟨by decide +kernel, husd, by rw [hplanets, hplanets],
        fun hne => absurd hplanets hne, fun pair _ => current_daily pair⟩, ?_⟩
      intro hnone
      exact absurd hnone (by decide +kernel)

end CandlePricesWitness

end ReportsFramework
