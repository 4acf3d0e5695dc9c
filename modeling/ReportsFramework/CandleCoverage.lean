/-
The candles of the currency converter.  The data checker requests the candles of the
currencies of the ledgers and of their synonyms; the converter later looks up the pair
of the currency of a ledger, and then those of its synonyms.
-/
import Mathlib.Data.List.Dedup
import Mathlib.Order.Nat
import Mathlib.Tactic.Linarith
import Mathlib.Tactic.Push
import Mathlib.Tactic.SplitIfs

namespace ReportsFramework

namespace CandleCoverage

/-- What the checker and the converter read of a ledger. -/
structure LedgerItem where
  currency : Option String
  mts : ℤ
deriving DecidableEq

/-- The forex symbols, the splitting of a pair (with the empty text for a part that is
not there), and the synonyms of the currencies with their conversions. -/
structure Env where
  forexSymbs : List String
  splitSymbolPairs : String → String × String
  currenciesSynonymous : String → Option (List (String × ℚ))

/-- A text without its end `F0`, in whatever case of the letter, if it has that end. -/
def cutF0? (symbol : String) : Option String :=
  match symbol.toList.reverse with
  | '0' :: c :: rest =>
      if c = 'F' || c = 'f' then some (String.ofList rest.reverse) else none
  | _ => none

def replaceF0 (symbol : String) : String :=
  (cutF0? symbol).getD symbol

def separatorOf (isLong : Bool) : String :=
  if isLong then ":" else ""

section Checker

variable (env : Env)

/-- `Set.add`. -/
def add (accum : List String) (symbol : String) : List String :=
  if symbol ∈ accum then accum else accum ++ [symbol]

/-- The synonyms of a currency. -/
def synonyms (currency : String) : List String :=
  ((env.currenciesSynonymous currency).getD []).map Prod.fst

/-- The synonyms of a currency that are not collected yet, once it is itself. -/
def uniqueSynonymous (accum : List String) (currency : String) : List String :=
  (synonyms env currency).filter (· ∉ add accum currency)

/-- The callback of the reduction.  Of the texts that are spread into `Set.add` it takes
the first. -/
def collect (accum : List String) (currency : Option String) : List String :=
  match currency with
  | none => accum
  | some currency =>
      if currency = "" then accum
      else
        match uniqueSynonymous env accum currency with
        | [] => add accum currency
        | symbol :: _ => add (add accum currency) symbol

/-- `SELECT DISTINCT currency … WHERE currency NOT IN (forex symbols)`, over the ledgers
that match the filter of the users. -/
def distinctCurrencies (ledgers : List LedgerItem) : List (Option String) :=
  ((ledgers.filter fun ledger => ledger.currency.any (· ∉ env.forexSymbs)).map
    (·.currency)).dedup

def getUniqueSymbsFromLedgers (ledgers tempLedgers : List LedgerItem) : List String :=
  (distinctCurrencies env ledgers ++ distinctCurrencies env tempLedgers).foldl (collect env) []

/-- The pair of a symbol that candles are requested for. -/
def candlesPair? (symbol : String) : Option String :=
  let currency := replaceF0 symbol
  if currency = "" then none
  else some ("t" ++ currency ++ separatorOf (3 < currency.length) ++ "USD")

def candlesPairsSet (ledgers tempLedgers : List LedgerItem) : List String :=
  (getUniqueSymbsFromLedgers env ledgers tempLedgers).filterMap candlesPair? ++
    env.forexSymbs.map ("tBTC" ++ ·)

/-- Five days before the first ledger that is not in USD, or before now. -/
def getFirstLedgerMts (ledgers tempLedgers : List LedgerItem) (now : ℤ) : ℤ :=
  let mts := ((ledgers ++ tempLedgers).filter fun ledger =>
    ledger.currency.any (· ≠ "USD")).map (·.mts)
  (mts.min?.getD now) - 5 * 86400000

/-- A pair whose last synchronisation is asked for, with the start it is to have. -/
structure CandlesRequest where
  symbol : String
  defaultStart : ℤ

def checkNewCandlesData (ledgers tempLedgers : List LedgerItem) (now : ℤ) :
    List CandlesRequest :=
  let firstLedgerMts := getFirstLedgerMts ledgers tempLedgers now
  (candlesPairsSet env ledgers tempLedgers).map (⟨·, firstLedgerMts⟩)

end Checker

section Converter

variable (env : Env)

def getConvertingSymb (symbol : String) : String :=
  if symbol.length < 4 then symbol else replaceF0 symbol

def getPair (symbol : String) : String :=
  let symbol := getConvertingSymb symbol
  "t" ++ symbol ++ separatorOf (3 < symbol.length) ++ "USD"

/-- The `t` or `f` at the front of a pair. -/
def flagOf (symbol : String) : String :=
  match symbol.toList with
  | 't' :: _ => "t"
  | 'f' :: _ => "f"
  | _ => ""

def getPairFromPair (symbol : String) : String :=
  if symbol.length < 8 || flagOf symbol = "" then symbol
  else
    let (firstSymb, lastSymb) := env.splitSymbolPairs symbol
    let firstSymb := getConvertingSymb firstSymb
    let lastSymb := getConvertingSymb lastSymb
    flagOf symbol ++ firstSymb ++ separatorOf (3 < firstSymb.length || 3 < lastSymb.length) ++
      lastSymb

def getSynonymous (symbol : String) : List String :=
  let (firstSymb, lastSymb) := env.splitSymbolPairs symbol
  let pairOf (symb : String) :=
    flagOf symbol ++ symb ++ separatorOf (symb ≠ "" && lastSymb ≠ "" &&
      (3 < symb.length || 3 < lastSymb.length)) ++ lastSymb
  (synonyms env firstSymb).flatMap fun symb =>
    pairOf symb ::
      (if 4 ≤ symb.length && (cutF0? symb).isSome then [pairOf (getConvertingSymb symb)] else [])

/-- The symbols that `_priceFinder` asks a price for, one after the other until it has
one; none if the currency is the one to convert to. -/
def finderSymbs (currency : String) : List String :=
  let symbol := getConvertingSymb currency
  if symbol = "USD" then []
  else
    let symbol := getPairFromPair env symbol
    symbol :: getSynonymous env symbol

/-- The pairs that `_getPrice` looks up in the candles for one of these symbols. -/
def candleSymbs (symbol : String) : List String :=
  if symbol ∈ env.forexSymbs && symbol ≠ "USD" then
    [getPairFromPair env ("tBTC" ++ symbol), getPairFromPair env ("tBTC" ++ "USD")]
  else if "USD" ∉ env.forexSymbs then
    [getPairFromPair env ("t" ++ symbol ++ "USD"), getPairFromPair env ("t" ++ "USD" ++ "USD")]
  else [getPairFromPair env (getPair symbol)]

/-- The pairs that may be looked up to value a ledger. -/
def lookUps (ledger : LedgerItem) : List String :=
  match ledger.currency with
  | none => []
  | some currency =>
      if currency = "" then [] else (finderSymbs env currency).flatMap (candleSymbs env)

end Converter

/-- Every pair that may be looked up is requested, from the first ledger of the
currency on at the latest. -/
def Covered (env : Env) (ledgers tempLedgers : List LedgerItem) (now : ℤ) : Prop :=
  ∀ ledger ∈ ledgers ++ tempLedgers, ∀ pair ∈ lookUps env ledger,
    ∃ request ∈ checkNewCandlesData env ledgers tempLedgers now, request.symbol = pair ∧
      ∀ other ∈ ledgers ++ tempLedgers, other.currency = ledger.currency →
        request.defaultStart ≤ other.mts

section Turns

/-- A turn of the reduction: what is collected before, and the currency of the turn. -/
structure Turn where
  accum : List String
  currency : String

def turns (env : Env) : List String → List (Option String) → List Turn
  | _, [] => []
  | accum, none :: rest => turns env accum rest
  | accum, some currency :: rest =>
      if currency = "" then turns env accum rest
      else ⟨accum, currency⟩ :: turns env (collect env accum (some currency)) rest

/-- The new synonyms of the currency, of which the turn keeps the first. -/
def Turn.fresh (env : Env) (turn : Turn) : List String :=
  uniqueSynonymous env turn.accum turn.currency

variable (env : Env)

theorem mem_add {accum : List String} {symbol x : String} :
    x ∈ add accum symbol ↔ x ∈ accum ∨ x = symbol := by
  unfold add
  split_ifs with hold
  · constructor
    · exact .inl
    · rintro (hmem | rfl)
      · exact hmem
      · exact hold
  · simp

theorem mem_collect {accum : List String} {currency x : String} (hne : currency ≠ "") :
    x ∈ collect env accum (some currency) ↔
      x ∈ accum ∨ x = currency ∨ (uniqueSynonymous env accum currency).head? = some x := by
  unfold collect
  simp only [hne, if_false]
  cases uniqueSynonymous env accum currency with
  | nil => simp [mem_add]
  | cons symbol rest =>
      simp only [mem_add, List.head?_cons, Option.some.injEq]
      rw [or_assoc, eq_comm (a := x) (b := symbol)]

/-- What is collected in the end: the currencies, and the one synonym of each turn. -/
theorem mem_foldl_collect {accum : List String} {currencies : List (Option String)} {x : String} :
    x ∈ currencies.foldl (collect env) accum ↔
      x ∈ accum ∨ ∃ turn ∈ turns env accum currencies,
        x = turn.currency ∨ (turn.fresh env).head? = some x := by
  induction currencies generalizing accum with
  | nil => simp [turns]
  | cons currency rest ih =>
      rw [List.foldl_cons, ih]
      cases currency with
      | none => rfl
      | some currency =>
          by_cases hne : currency = ""
          · simp [collect, turns, hne]
          · rw [mem_collect env hne, turns, if_neg hne]
            simp only [List.exists_mem_cons_iff]
            exact or_assoc

theorem mem_foldl_of_mem_accum {accum : List String} {currencies : List (Option String)}
    {turn : Turn} (hturn : turn ∈ turns env accum currencies) {x : String}
    (hx : x ∈ turn.accum) : x ∈ currencies.foldl (collect env) accum := by
  induction currencies generalizing accum with
  | nil => simp [turns] at hturn
  | cons currency rest ih =>
      rw [List.foldl_cons]
      cases currency with
      | none => exact ih hturn
      | some currency =>
          by_cases hne : currency = ""
          · rw [turns, if_pos hne] at hturn
            simpa [collect, hne] using ih hturn
          · rw [turns, if_neg hne] at hturn
            rcases List.mem_cons.mp hturn with rfl | hrest
            · rw [mem_foldl_collect, mem_collect env hne]
              exact .inl (.inl hx)
            · exact ih hrest

theorem exists_turn {accum : List String} {currencies : List (Option String)}
    {currency : String} (hmem : some currency ∈ currencies) (hne : currency ≠ "") :
    ∃ turn ∈ turns env accum currencies, turn.currency = currency := by
  induction currencies generalizing accum with
  | nil => cases hmem
  | cons first rest ih =>
      rcases List.mem_cons.mp hmem with rfl | hrest
      · exact ⟨⟨accum, currency⟩, by simp [turns, hne], rfl⟩
      · cases first with
        | none => exact ih hrest
        | some other =>
            rw [turns]
            split_ifs
            · exact ih hrest
            · obtain ⟨turn, hturn, heq⟩ := ih hrest
              exact ⟨turn, .tail _ hturn, heq⟩

end Turns

section Coverage

variable (env : Env) (ledgers tempLedgers : List LedgerItem)

/-- The turns over the currencies of the ledgers. -/
def ledgerTurns : List Turn :=
  turns env [] (distinctCurrencies env ledgers ++ distinctCurrencies env tempLedgers)

/-- The pair of a forex symbol, of a currency of the ledgers, or of the first new
synonym of a turn. -/
def Backed (pair : String) : Prop :=
  (∃ symbol ∈ env.forexSymbs, "tBTC" ++ symbol = pair) ∨
    ∃ turn ∈ ledgerTurns env ledgers tempLedgers, candlesPair? turn.currency = some pair ∨
      ∃ symbol, (turn.fresh env).head? = some symbol ∧ candlesPair? symbol = some pair

/-- The pair of a new synonym behind the first one of a turn. -/
def Dropped (pair : String) : Prop :=
  ∃ turn ∈ ledgerTurns env ledgers tempLedgers, ∃ symbol ∈ (turn.fresh env).tail,
    candlesPair? symbol = some pair

/-- A pair that is neither that of the currency nor that of one of its synonyms as the
checker sees them; it does not look at forex currencies at all. -/
def Foreign (ledger : LedgerItem) (pair : String) : Prop :=
  ∀ currency, ledger.currency = some currency → currency ∉ env.forexSymbs →
    ∀ symbol ∈ currency :: synonyms env currency, candlesPair? symbol ≠ some pair

variable {env ledgers tempLedgers}

theorem mem_getUniqueSymbs {x : String} :
    x ∈ getUniqueSymbsFromLedgers env ledgers tempLedgers ↔
      ∃ turn ∈ ledgerTurns env ledgers tempLedgers,
        x = turn.currency ∨ (turn.fresh env).head? = some x := by
  unfold getUniqueSymbsFromLedgers ledgerTurns
  rw [mem_foldl_collect]
  simp

theorem mem_candlesPairsSet {pair : String} :
    pair ∈ candlesPairsSet env ledgers tempLedgers ↔ Backed env ledgers tempLedgers pair := by
  unfold candlesPairsSet Backed
  rw [List.mem_append, List.mem_map, List.mem_filterMap, or_comm]
  apply or_congr_right
  constructor
  · rintro ⟨symbol, hmem, hpair⟩
    obtain ⟨turn, hturn, rfl | hfirst⟩ := mem_getUniqueSymbs.mp hmem
    · exact ⟨turn, hturn, .inl hpair⟩
    · exact ⟨turn, hturn, .inr ⟨symbol, hfirst, hpair⟩⟩
  · rintro ⟨turn, hturn, hpair | ⟨symbol, hfirst, hpair⟩⟩
    · exact ⟨turn.currency, mem_getUniqueSymbs.mpr ⟨turn, hturn, .inl rfl⟩, hpair⟩
    · exact ⟨symbol, mem_getUniqueSymbs.mpr ⟨turn, hturn, .inr hfirst⟩, hpair⟩

/-- A symbol that the checker goes by is collected, unless its turn drops it. -/
theorem collected_or_dropped {turn : Turn} (hturn : turn ∈ ledgerTurns env ledgers tempLedgers)
    {symbol : String} (hmem : symbol ∈ turn.currency :: synonyms env turn.currency) :
    symbol ∈ getUniqueSymbsFromLedgers env ledgers tempLedgers ∨
      symbol ∈ (turn.fresh env).tail := by
  rcases List.mem_cons.mp hmem with rfl | hsyn
  · exact .inl (mem_getUniqueSymbs.mpr ⟨turn, hturn, .inl rfl⟩)
  · by_cases hold : symbol ∈ add turn.accum turn.currency
    · rcases mem_add.mp hold with haccum | rfl
      · exact .inl (mem_foldl_of_mem_accum env hturn haccum)
      · exact .inl (mem_getUniqueSymbs.mpr ⟨turn, hturn, .inl rfl⟩)
    · have hfresh : symbol ∈ turn.fresh env :=
        List.mem_filter.mpr ⟨hsyn, by simpa using hold⟩
      cases hlist : turn.fresh env with
      | nil => simp [hlist] at hfresh
      | cons first rest =>
          rw [hlist] at hfresh
          rcases List.mem_cons.mp hfresh with rfl | hrest
          · exact .inl (mem_getUniqueSymbs.mpr ⟨turn, hturn, .inr (by rw [hlist]; rfl)⟩)
          · exact .inr hrest

theorem exists_turn_of_ledger {ledger : LedgerItem} (hledger : ledger ∈ ledgers ++ tempLedgers)
    {currency : String} (hcurrency : ledger.currency = some currency) (hne : currency ≠ "")
    (hforex : currency ∉ env.forexSymbs) :
    ∃ turn ∈ ledgerTurns env ledgers tempLedgers, turn.currency = currency := by
  apply exists_turn env _ hne
  have hdistinct : ∀ rows : List LedgerItem, ledger ∈ rows →
      some currency ∈ distinctCurrencies env rows := by
    intro rows hrows
    apply List.mem_dedup.mpr
    apply List.mem_map.mpr
    exact ⟨ledger, List.mem_filter.mpr ⟨hrows, by simp [hcurrency, hforex]⟩, hcurrency⟩
  rcases List.mem_append.mp hledger with hmain | htemp
  · exact List.mem_append_left _ (hdistinct ledgers hmain)
  · exact List.mem_append_right _ (hdistinct tempLedgers htemp)

/-- The start is five days before every ledger that is not in USD. -/
theorem getFirstLedgerMts_le {ledger : LedgerItem} (hledger : ledger ∈ ledgers ++ tempLedgers)
    {currency : String} (hcurrency : ledger.currency = some currency) (hne : currency ≠ "USD")
    (now : ℤ) : getFirstLedgerMts ledgers tempLedgers now ≤ ledger.mts := by
  unfold getFirstLedgerMts
  have hmem : ledger.mts ∈ ((ledgers ++ tempLedgers).filter fun ledger =>
      ledger.currency.any (· ≠ "USD")).map (·.mts) := by
    apply List.mem_map_of_mem
    exact List.mem_filter.mpr ⟨hledger, by simp [hcurrency, hne]⟩
  dsimp only
  cases hmin : (((ledgers ++ tempLedgers).filter fun ledger =>
      ledger.currency.any (· ≠ "USD")).map (·.mts)).min? with
  | none =>
      rw [List.min?_eq_none_iff.mp hmin] at hmem
      cases hmem
  | some first =>
      have hle := (List.le_min?_iff hmin).mp le_rfl _ hmem
      simp only [Option.getD_some]
      omega

/-- Nothing is looked up to value a ledger in USD. -/
theorem ne_usd_of_lookUps {ledger : LedgerItem} {pair currency : String}
    (hpair : pair ∈ lookUps env ledger) (hcurrency : ledger.currency = some currency) :
    currency ≠ "USD" ∧ currency ≠ "" := by
  unfold lookUps at hpair
  rw [hcurrency] at hpair
  constructor
  · rintro rfl
    have hnil : finderSymbs env "USD" = [] := by
      unfold finderSymbs getConvertingSymb
      rfl
    simp [hnil] at hpair
  · rintro rfl
    simp at hpair

/-- The candles cover the look-ups exactly if every pair looked up that a turn has
dropped, or that the checker does not go by, is requested for another reason. -/
theorem covered_iff (env : Env) (ledgers tempLedgers : List LedgerItem) (now : ℤ) :
    Covered env ledgers tempLedgers now ↔
      ∀ ledger ∈ ledgers ++ tempLedgers, ∀ pair ∈ lookUps env ledger,
        Dropped env ledgers tempLedgers pair ∨ Foreign env ledger pair →
          Backed env ledgers tempLedgers pair := by
  have hrequest : ∀ pair, pair ∈ candlesPairsSet env ledgers tempLedgers ↔
      ∃ request ∈ checkNewCandlesData env ledgers tempLedgers now, request.symbol = pair := by
    intro pair
    simp [checkNewCandlesData]
  constructor
  · intro h ledger hledger pair hpair _
    obtain ⟨request, hmem, hsymbol, _⟩ := h ledger hledger pair hpair
    exact mem_candlesPairsSet.mp ((hrequest pair).mpr ⟨request, hmem, hsymbol⟩)
  · intro h ledger hledger pair hpair
    have hbacked : pair ∈ candlesPairsSet env ledgers tempLedgers := by
      apply mem_candlesPairsSet.mpr
      by_cases hforeign : Foreign env ledger pair
      · exact h ledger hledger pair hpair (.inr hforeign)
      · unfold Foreign at hforeign
        push Not at hforeign
        obtain ⟨currency, hcurrency, hforex, symbol, hsymbol, heq⟩ := hforeign
        obtain ⟨turn, hturn, rfl⟩ := exists_turn_of_ledger hledger hcurrency
          (ne_usd_of_lookUps hpair hcurrency).2 hforex
        rcases collected_or_dropped hturn hsymbol with hcollected | hdropped
        · apply mem_candlesPairsSet.mp
          exact List.mem_append_left _ (List.mem_filterMap.mpr ⟨symbol, hcollected, heq⟩)
        · exact h ledger hledger pair hpair (.inl ⟨turn, hturn, symbol, hdropped, heq⟩)
    refine ⟨⟨pair, getFirstLedgerMts ledgers tempLedgers now⟩, ?_, rfl, ?_⟩
    · exact List.mem_map_of_mem hbacked
    · intro other hother hsame
      cases hcurrency : ledger.currency with
      | none => simp [lookUps, hcurrency] at hpair
      | some currency =>
          exact getFirstLedgerMts_le hother (hsame.trans hcurrency)
            (ne_usd_of_lookUps hpair hcurrency).1 now

end Coverage

namespace Witness

/-- UST has two synonyms. -/
def env : Env where
  forexSymbs := ["USD", "EUR"]
  splitSymbolPairs symbol := (symbol, "")
  currenciesSynonymous symbol := if symbol = "UST" then some [("USDC", 1), ("DAI", 1)] else none

/-- The second synonym of UST may be looked up, but its candles are not requested. -/
theorem second_synonym_not_covered : ¬ Covered env [⟨some "UST", 10⟩] [] 20 := by
  intro h
  have hpair : "tDAIUSD" ∈ lookUps env ⟨some "UST", 10⟩ := by decide +kernel
  obtain ⟨request, hmem, hsymbol, _⟩ := h _ (.head _) _ hpair
  have hnone : ∀ request ∈ checkNewCandlesData env [⟨some "UST", 10⟩] [] 20,
      request.symbol ≠ "tDAIUSD" := by decide +kernel
  exact hnone request hmem hsymbol

end Witness

end CandleCoverage

end ReportsFramework
