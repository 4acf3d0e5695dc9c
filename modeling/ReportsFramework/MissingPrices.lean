/-
Missing prices.  A transaction without a public trade is noted as delisted, but a trade
without a price, or a forex payment whose crypto leg has no trade, ends the conversion.
-/
import ReportsFramework.PriceLookUps

namespace ReportsFramework

section Order

variable {env : TaxEnv} {trxs : List ReportTrx}

/-- The calculators that a map lists under a currency. -/
def calculatorsOf (map : List (String × List TrxPriceCalculator)) (symb : String) :
    List TrxPriceCalculator :=
  ((map.find? (·.1 = symb)).map (·.2)).getD []

theorem calculatorsOf_setCcyCalculator (symb key : String) (calculator : TrxPriceCalculator)
    (map : List (String × List TrxPriceCalculator)) :
    calculatorsOf (setCcyCalculator key calculator map) symb =
      calculatorsOf map symb ++ if key = symb then [calculator] else [] := by
  induction map with
  | nil =>
    unfold setCcyCalculator calculatorsOf
    split <;> simp [*]
  | cons head map ih =>
    obtain ⟨key', calculators⟩ := head
    unfold calculatorsOf at ih
    unfold setCcyCalculator
    split
    next heq =>
      subst heq
      unfold calculatorsOf
      by_cases hsymb : key' = symb <;> simp [hsymb]
    next hne =>
      unfold calculatorsOf
      by_cases hsymb : key' = symb
      · subst hsymb
        simp [Ne.symm hne]
      · simp only [List.find?_cons, hsymb, decide_false]
        exact ih

/-- The calculators of a currency stand in the order of their transactions. -/
theorem calculatorsOf_foldl (symb : String) (pairs : List (String × TrxPriceCalculator))
    (map : List (String × List TrxPriceCalculator)) :
    calculatorsOf (pairs.foldl (fun map (symb, calculator) =>
        setCcyCalculator symb calculator map) map) symb =
      calculatorsOf map symb ++ (pairs.filter (·.1 = symb)).map (·.2) := by
  induction pairs generalizing map with
  | nil => simp
  | cons pair pairs ih =>
    rw [List.foldl_cons, ih, calculatorsOf_setCcyCalculator, List.append_assoc, List.filter_cons]
    split <;> simp_all

/-- A forex calculator is not before the crypto one of its transaction. -/
def NotBeforeCrypto (earlier later : TrxPriceCalculator) : Prop :=
  earlier.kindOfCcyForTriangulation = some .isForexCcyForTriangulation →
    later.kindOfCcyForTriangulation = some .isCryptoCcyForTriangulation →
      earlier.trx ≠ later.trx

/-- What a transaction is listed for. -/
theorem ccyCalculators_ordered (trx : ReportTrx) (i : ℕ) :
    ((ccyCalculators env trx i).map (·.2)).Pairwise NotBeforeCrypto := by
  unfold ccyCalculators NotBeforeCrypto
  dsimp only
  split_ifs <;> simp

theorem crypto_of_mem_ccyCalculators {trx : ReportTrx} {i : ℕ} {symb : String}
    {calculator : TrxPriceCalculator} (h : (symb, calculator) ∈ ccyCalculators env trx i) :
    (calculator.kindOfCcyForTriangulation = some .isCryptoCcyForTriangulation →
        symb = cryptoCcyForTriangulation) ∧
      (calculator.kindOfCcyForTriangulation = some .isForexCcyForTriangulation →
        ∃ crypto, (cryptoCcyForTriangulation, crypto) ∈ ccyCalculators env trx i ∧
          crypto.trx = calculator.trx ∧
          crypto.kindOfCcyForTriangulation = some .isCryptoCcyForTriangulation) := by
  unfold ccyCalculators at h ⊢
  dsimp only at h ⊢
  split_ifs at h ⊢
  · rcases List.mem_pair.mp h with h | h
    · cases h
      exact ⟨fun _ => rfl, nofun⟩
    · cases h
      exact ⟨nofun, fun _ => ⟨_, List.mem_cons_self, rfl, rfl⟩⟩
  all_goals
    cases List.mem_singleton.mp h
    exact ⟨nofun, nofun⟩

/-- The calculators of all transactions, before they are listed by their currencies. -/
def trxCalculators (env : TaxEnv) (trxs : List ReportTrx) : List (String × TrxPriceCalculator) :=
  trxs.zipIdx.flatMap fun (trx, i) => ccyCalculators env trx i

theorem mem_trxCalculators {symb : String} {calculator : TrxPriceCalculator} :
    (symb, calculator) ∈ trxCalculators env trxs ↔
      ∃ trx i, trxs[i]? = some trx ∧ (symb, calculator) ∈ ccyCalculators env trx i := by
  unfold trxCalculators
  rw [List.mem_flatMap]
  constructor
  · rintro ⟨⟨trx, i⟩, hmem, hcalculator⟩
    exact ⟨trx, i, List.mem_zipIdx_iff_getElem?.mp hmem, hcalculator⟩
  · rintro ⟨trx, i, hmem, hcalculator⟩
    exact ⟨(trx, i), List.mem_zipIdx_iff_getElem?.mpr hmem, hcalculator⟩

theorem trxCalculators_ordered (env : TaxEnv) (trxs : List ReportTrx) :
    ((trxCalculators env trxs).map (·.2)).Pairwise NotBeforeCrypto := by
  unfold trxCalculators
  rw [List.map_flatMap, List.pairwise_flatMap]
  constructor
  · rintro ⟨trx, i⟩ -
    exact ccyCalculators_ordered trx i
  · rw [List.pairwise_iff_getElem]
    intro i j hi hj hij earlier hearlier later hlater _ _ htrx
    obtain ⟨⟨symb, calculator⟩, hmem, rfl⟩ := List.mem_map.mp hearlier
    obtain ⟨⟨symb', calculator'⟩, hmem', rfl⟩ := List.mem_map.mp hlater
    have hearlierTrx := trx_of_mem_ccyCalculators hmem
    have hlaterTrx := trx_of_mem_ccyCalculators hmem'
    rw [List.get_eq_getElem, List.getElem_zipIdx] at hearlierTrx hlaterTrx
    have hsame : i = j := calc
      i = calculator.trx := (hearlierTrx.trans (Nat.zero_add i)).symm
      _ = calculator'.trx := htrx
      _ = j := hlaterTrx.trans (Nat.zero_add j)
    omega

/-- The currencies with their calculators, before the crypto currency is placed at the
start. -/
def trxMap (env : TaxEnv) (trxs : List ReportTrx) : List (String × List TrxPriceCalculator) :=
  (trxCalculators env trxs).foldl (fun map (symb, calculator) =>
    setCcyCalculator symb calculator map) []

theorem getTrxMapByCcy_eq (env : TaxEnv) (trxs : List ReportTrx) :
    getTrxMapByCcy env trxs = placeTriangulationCcyAtStart (trxMap env trxs) := rfl

theorem calculatorsOf_trxMap (env : TaxEnv) (trxs : List ReportTrx) (symb : String) :
    calculatorsOf (trxMap env trxs) symb =
      ((trxCalculators env trxs).filter (·.1 = symb)).map (·.2) :=
  calculatorsOf_foldl symb (trxCalculators env trxs) []

/-- Only the crypto currency lists crypto calculators. -/
theorem not_crypto_of_mem {entry : String × List TrxPriceCalculator}
    (hentry : entry ∈ trxMap env trxs) (hne : entry.1 ≠ cryptoCcyForTriangulation)
    {calculator : TrxPriceCalculator} (hcalculator : calculator ∈ entry.2) :
    calculator.kindOfCcyForTriangulation ≠ some .isCryptoCcyForTriangulation := by
  intro hcrypto
  have hmem := mem_foldl_setCcyCalculator hentry hcalculator
  simp only [List.not_mem_nil, false_and, exists_false, or_false] at hmem
  obtain ⟨trx, i, -, hmem⟩ := mem_trxCalculators.mp hmem
  exact hne ((crypto_of_mem_ccyCalculators hmem).1 hcrypto)

/-- The calculators in the order of their turns. -/
theorem calculators_ordered (env : TaxEnv) (trxs : List ReportTrx) :
    ((getTrxMapByCcy env trxs).flatMap (·.2)).Pairwise NotBeforeCrypto := by
  have hothers : ∀ map : List (String × List TrxPriceCalculator),
      (∀ entry ∈ map, entry ∈ trxMap env trxs ∧ entry.1 ≠ cryptoCcyForTriangulation) →
        ∀ calculator ∈ map.flatMap (·.2),
          calculator.kindOfCcyForTriangulation ≠ some .isCryptoCcyForTriangulation := by
    intro map hmap calculator hcalculator
    obtain ⟨entry, hentry, hcalculator⟩ := List.mem_flatMap.mp hcalculator
    exact not_crypto_of_mem (hmap entry hentry).1 (hmap entry hentry).2 hcalculator
  have hnone : ∀ calculators : List TrxPriceCalculator, (∀ calculator ∈ calculators,
      calculator.kindOfCcyForTriangulation ≠ some .isCryptoCcyForTriangulation) →
        calculators.Pairwise NotBeforeCrypto := by
    intro calculators hcalculators
    apply List.pairwise_iff_forall_sublist.mpr
    intro earlier later hsub _ hcrypto
    exact absurd hcrypto (hcalculators later (hsub.subset (by simp)))
  rw [getTrxMapByCcy_eq]
  unfold placeTriangulationCcyAtStart
  split
  next hfind =>
    apply hnone
    apply hothers
    intro entry hentry
    exact ⟨hentry, by simpa using List.find?_eq_none.mp hfind entry hentry⟩
  next entry hfind =>
    have hlist := calculatorsOf_trxMap env trxs cryptoCcyForTriangulation
    unfold calculatorsOf at hlist
    rw [hfind, Option.map_some, Option.getD_some] at hlist
    rw [List.flatMap_cons, List.pairwise_append]
    refine ⟨?_, ?_, ?_⟩
    · rw [hlist]
      exact (trxCalculators_ordered env trxs).sublist (List.filter_sublist.map _)
    · apply hnone
      apply hothers
      intro entry hentry
      obtain ⟨hentry, hne⟩ := List.mem_filter.mp hentry
      exact ⟨hentry, by simpa using hne⟩
    · intro earlier _ later hlater _ hcrypto
      refine absurd hcrypto (hothers _ ?_ later hlater)
      intro entry hentry
      obtain ⟨hentry, hne⟩ := List.mem_filter.mp hentry
      exact ⟨hentry, by simpa using hne⟩

/-- A forex calculator stands in the map with the crypto one of its transaction. -/
theorem exists_crypto {calculator : TrxPriceCalculator}
    (hcalculator : calculator ∈ (getTrxMapByCcy env trxs).flatMap (·.2))
    (hforex : calculator.kindOfCcyForTriangulation = some .isForexCcyForTriangulation) :
    ∃ crypto ∈ (getTrxMapByCcy env trxs).flatMap (·.2), crypto.trx = calculator.trx ∧
      crypto.kindOfCcyForTriangulation = some .isCryptoCcyForTriangulation := by
  obtain ⟨⟨symb, calculators⟩, hentry, hmem⟩ := List.mem_flatMap.mp hcalculator
  obtain ⟨trx, i, htrx, hmem⟩ := mem_getTrxMapByCcy hentry hmem
  obtain ⟨crypto, hcrypto, hsame, hkind⟩ := (crypto_of_mem_ccyCalculators hmem).2 hforex
  refine ⟨crypto, ?_, hsame, hkind⟩
  have hlisted : crypto ∈ calculatorsOf (trxMap env trxs) cryptoCcyForTriangulation := by
    rw [calculatorsOf_trxMap]
    refine List.mem_map.mpr ⟨(cryptoCcyForTriangulation, crypto), List.mem_filter.mpr ⟨?_, ?_⟩, rfl⟩
    · exact mem_trxCalculators.mpr ⟨trx, i, htrx, hcrypto⟩
    · simp
  unfold calculatorsOf at hlisted
  rw [getTrxMapByCcy_eq]
  unfold placeTriangulationCcyAtStart
  cases hfind : (trxMap env trxs).find? (·.1 = cryptoCcyForTriangulation) with
  | none =>
    rw [hfind] at hlisted
    cases hlisted
  | some entry =>
    rw [hfind] at hlisted
    exact List.mem_flatMap.mpr ⟨entry, List.mem_cons_self, hlisted⟩

end Order

section Priceable

variable {env : TaxEnv} {source : PriceSource} {trxs : List ReportTrx}

theorem map_calculator_ccyLookUps (mtsOf : ℕ → ℕ) (symbol : String) (window : PriceWindow)
    (fetchedBy : Option TrxPriceCalculator) (calculators : List TrxPriceCalculator) :
    (ccyLookUps source mtsOf symbol window fetchedBy calculators).map (·.calculator) =
      calculators := by
  induction calculators generalizing window fetchedBy with
  | nil => rfl
  | cons calculator calculators ih =>
    simp only [ccyLookUps, List.map_cons, ih]

theorem map_calculator_priceLookUps (env : TaxEnv) (source : PriceSource)
    (trxs : List ReportTrx) :
    (priceLookUps env source trxs).map (·.calculator) =
      (getTrxMapByCcy env trxs).flatMap (·.2) := by
  unfold priceLookUps mapLookUps
  rw [List.map_flatMap]
  simp only [map_calculator_ccyLookUps]

def PriceLookUp.IsForex (lookUp : PriceLookUp) : Prop :=
  lookUp.calculator.kindOfCcyForTriangulation = some .isForexCcyForTriangulation

def PriceLookUp.IsCrypto (lookUp : PriceLookUp) : Prop :=
  lookUp.calculator.kindOfCcyForTriangulation = some .isCryptoCcyForTriangulation

/-- One of the look-ups has found a trade for the crypto leg of transaction `i`. -/
def CryptoFound (lookUps : List PriceLookUp) (i : ℕ) : Prop :=
  ∃ lookUp ∈ lookUps, lookUp.calculator.trx = i ∧ lookUp.IsCrypto ∧ lookUp.found.isSome = true

/-- Every public trade that is found has a price, and none is found for a forex currency
without one for the crypto leg. -/
structure Priceable (lookUps : List PriceLookUp) : Prop where
  price : ∀ lookUp ∈ lookUps, ∀ pubTrade, lookUp.found = some pubTrade →
    (nonzero? pubTrade.price).isSome = true
  crypto : ∀ lookUp ∈ lookUps, lookUp.found.isSome = true → lookUp.IsForex →
    CryptoFound lookUps lookUp.calculator.trx

/-- The same with the crypto legs among the look-ups before. -/
def PriceableAfter : List PriceLookUp → List PriceLookUp → Prop
  | _, [] => True
  | done, lookUp :: lookUps =>
      (∀ pubTrade, lookUp.found = some pubTrade → (nonzero? pubTrade.price).isSome = true ∧
        (lookUp.IsForex → CryptoFound done lookUp.calculator.trx)) ∧
      PriceableAfter (done ++ [lookUp]) lookUps

theorem priceableAfter_iff (done lookUps : List PriceLookUp) :
    PriceableAfter done lookUps ↔ ∀ left lookUp right, lookUps = left ++ lookUp :: right →
      ∀ pubTrade, lookUp.found = some pubTrade → (nonzero? pubTrade.price).isSome = true ∧
        (lookUp.IsForex → CryptoFound (done ++ left) lookUp.calculator.trx) := by
  induction lookUps generalizing done with
  | nil =>
    simp only [PriceableAfter, true_iff]
    intro left lookUp right heq
    simp at heq
  | cons head lookUps ih =>
    simp only [PriceableAfter, ih]
    constructor
    · rintro ⟨hhead, hrest⟩ left lookUp right heq
      cases left with
      | nil =>
        obtain ⟨rfl, rfl⟩ := List.cons.inj heq
        rw [List.append_nil]
        exact hhead
      | cons first left =>
        obtain ⟨rfl, rfl⟩ := List.cons.inj heq
        have := hrest left lookUp right rfl
        rwa [List.append_assoc] at this
    · intro hall
      constructor
      · have := hall [] head lookUps rfl
        rwa [List.append_nil] at this
      · rintro left lookUp right rfl
        have := hall (head :: left) lookUp right rfl
        rwa [List.append_assoc]

/-- The crypto leg of a forex look-up has its turn before it. -/
theorem crypto_before {left right : List PriceLookUp} {lookUp : PriceLookUp}
    (hlookUps : priceLookUps env source trxs = left ++ lookUp :: right) (hforex : lookUp.IsForex)
    {crypto : PriceLookUp} (hcrypto : crypto ∈ priceLookUps env source trxs)
    (hkind : crypto.IsCrypto) (htrx : crypto.calculator.trx = lookUp.calculator.trx) :
    crypto ∈ left := by
  have hordered := calculators_ordered env trxs
  rw [← map_calculator_priceLookUps env source, hlookUps, List.map_append, List.map_cons,
    List.pairwise_append] at hordered
  obtain ⟨-, hright, -⟩ := hordered
  rw [List.pairwise_cons] at hright
  rw [hlookUps] at hcrypto
  rcases List.mem_append.mp hcrypto with hleft | hrest
  · exact hleft
  rcases List.mem_cons.mp hrest with rfl | hmem
  · exact nomatch hforex.symm.trans hkind
  · exact absurd htrx.symm (hright.1 _ (List.mem_map_of_mem hmem) hforex hkind)

theorem priceableAfter_nil_iff :
    PriceableAfter [] (priceLookUps env source trxs) ↔
      Priceable (priceLookUps env source trxs) := by
  rw [priceableAfter_iff]
  constructor
  · intro hall
    constructor
    · intro lookUp hlookUp pubTrade hfound
      obtain ⟨left, right, heq⟩ := List.append_of_mem hlookUp
      exact (hall left lookUp right heq pubTrade hfound).1
    · intro lookUp hlookUp hfound hforex
      obtain ⟨left, right, heq⟩ := List.append_of_mem hlookUp
      obtain ⟨pubTrade, hfound⟩ := Option.isSome_iff_exists.mp hfound
      obtain ⟨crypto, hcrypto, hrest⟩ := (hall left lookUp right heq pubTrade hfound).2 hforex
      refine ⟨crypto, ?_, hrest⟩
      rw [heq]
      exact List.mem_append_left _ hcrypto
  · intro hpriceable left lookUp right heq pubTrade hfound
    have hlookUp : lookUp ∈ priceLookUps env source trxs := by
      rw [heq]
      exact List.mem_append_right _ List.mem_cons_self
    constructor
    · exact hpriceable.price lookUp hlookUp pubTrade hfound
    · intro hforex
      obtain ⟨crypto, hcrypto, htrx, hkind, hcryptoFound⟩ :=
        hpriceable.crypto lookUp hlookUp (by rw [hfound]; rfl) hforex
      exact ⟨crypto, crypto_before heq hforex hcrypto hkind htrx, htrx, hkind, hcryptoFound⟩

end Priceable

section Evaluation

variable {state state' : ConvState} {lookUp : PriceLookUp} {done lookUps : List PriceLookUp}

/-- The crypto prices of a state are those of the look-ups that are done. -/
def CryptoPriced (state : ConvState) (done : List PriceLookUp) : Prop :=
  ∀ i, (nonzero? (state.cryptoPrices i)).isSome = true ↔ CryptoFound done i

theorem calcPrice_isOk_iff (calculator : TrxPriceCalculator) (price triangulation : Option ℚ)
    (trx : ReportTrx) :
    (∃ trx', calculator.calcPrice price triangulation trx = .ok trx') ↔
      (nonzero? price).isSome = true ∧
        (calculator.kindOfCcyForTriangulation = some .isForexCcyForTriangulation →
          (nonzero? triangulation).isSome = true) := by
  unfold TrxPriceCalculator.calcPrice
  cases nonzero? price with
  | none => simp
  | some price =>
    cases calculator.kindOfCcyForTriangulation with
    | none => simp
    | some kind =>
      cases kind with
      | isCryptoCcyForTriangulation => simp
      | isForexCcyForTriangulation => cases nonzero? triangulation <;> simp

/-- The step lemma: a look-up throws without the price that it needs. -/
theorem priceStep_isOk_iff (hlen : lookUp.calculator.trx < state.trxs.length)
    (hcrypto : CryptoPriced state done) :
    (∃ state', priceStep state lookUp = .ok state') ↔
      ∀ pubTrade, lookUp.found = some pubTrade → (nonzero? pubTrade.price).isSome = true ∧
        (lookUp.IsForex → CryptoFound done lookUp.calculator.trx) := by
  unfold priceStep
  rw [List.getElem?_eq_getElem hlen]
  cases lookUp.found with
  | none => simp
  | some pubTrade =>
    have hcalc := calcPrice_isOk_iff lookUp.calculator pubTrade.price
      (state.cryptoPrices lookUp.calculator.trx) state.trxs[lookUp.calculator.trx]
    rw [hcrypto] at hcalc
    have hcalcFrom : (∃ state', calcFrom state lookUp.calculator state.trxs[lookUp.calculator.trx]
        pubTrade = .ok state') ↔ ∃ trx', lookUp.calculator.calcPrice pubTrade.price
          (state.cryptoPrices lookUp.calculator.trx) state.trxs[lookUp.calculator.trx] =
            .ok trx' := by
      unfold calcFrom
      cases lookUp.calculator.calcPrice pubTrade.price
        (state.cryptoPrices lookUp.calculator.trx) state.trxs[lookUp.calculator.trx] <;> simp
    dsimp only
    rw [hcalcFrom, hcalc]
    constructor
    · intro h _ heq
      cases heq
      exact h
    · intro h
      exact h pubTrade rfl

theorem cryptoFound_snoc {i : ℕ} : CryptoFound (done ++ [lookUp]) i ↔
    CryptoFound done i ∨
      lookUp.calculator.trx = i ∧ lookUp.IsCrypto ∧ lookUp.found.isSome = true := by
  unfold CryptoFound
  constructor
  · rintro ⟨crypto, hmem, hrest⟩
    rcases List.mem_append.mp hmem with hdone | hlast
    · exact .inl ⟨crypto, hdone, hrest⟩
    · rw [List.mem_singleton] at hlast
      subst hlast
      exact .inr hrest
  · rintro (⟨crypto, hmem, hrest⟩ | hrest)
    · exact ⟨crypto, List.mem_append_left _ hmem, hrest⟩
    · exact ⟨lookUp, List.mem_append_right _ List.mem_cons_self, hrest⟩

theorem cryptoPriced_priceStep (hcrypto : CryptoPriced state done)
    (hlen : lookUp.calculator.trx < state.trxs.length)
    (h : priceStep state lookUp = .ok state') : CryptoPriced state' (done ++ [lookUp]) := by
  intro i
  rw [cryptoFound_snoc, ← hcrypto i]
  unfold priceStep at h
  rw [List.getElem?_eq_getElem hlen] at h
  cases hfound : lookUp.found with
  | none =>
    rw [hfound] at h
    cases h
    simp
  | some pubTrade =>
    rw [hfound] at h
    simp only [calcFrom] at h
    split at h
    · cases h
    next trx hcalc =>
      cases h
      have hprice := ((calcPrice_isOk_iff _ _ _ _).mp ⟨trx, hcalc⟩).1
      by_cases hkind : lookUp.IsCrypto
      · have hkind' : lookUp.calculator.kindOfCcyForTriangulation =
            some .isCryptoCcyForTriangulation := hkind
        simp only [hkind', ↓reduceIte]
        by_cases hi : lookUp.calculator.trx = i
        · subst hi
          simp [hprice, hkind]
        · rw [Function.update_of_ne (Ne.symm hi)]
          simp [hi]
      · have hkind' : ¬ lookUp.calculator.kindOfCcyForTriangulation =
            some .isCryptoCcyForTriangulation := hkind
        simp [hkind, hkind']

/-- The run lemma: the look-ups are priced to their end exactly if none of them throws. -/
theorem priceAll_isOk_iff (hlen : ∀ lookUp ∈ lookUps, lookUp.calculator.trx < state.trxs.length)
    (hcrypto : CryptoPriced state done) :
    (∃ state', priceAll state lookUps = .ok state') ↔ PriceableAfter done lookUps := by
  induction lookUps generalizing state done with
  | nil => exact ⟨fun _ => trivial, fun _ => ⟨state, rfl⟩⟩
  | cons lookUp lookUps ih =>
    obtain ⟨hhead, hrest⟩ := List.forall_mem_cons.mp hlen
    unfold PriceableAfter
    rw [← priceStep_isOk_iff hhead hcrypto, priceAll_cons]
    cases hstep : priceStep state lookUp with
    | error err =>
      constructor
      · rintro ⟨state', h⟩
        cases h
      · rintro ⟨⟨state', h⟩, -⟩
        cases h
    | ok priced =>
      have hrest' : ∀ l ∈ lookUps, l.calculator.trx < priced.trxs.length := by
        intro l hl
        rw [(priceStep_frame hstep).2]
        exact hrest l hl
      have hih := ih hrest' (cryptoPriced_priceStep hcrypto hhead hstep)
      constructor
      · intro h
        exact ⟨⟨priced, rfl⟩, hih.mp h⟩
      · rintro ⟨-, h⟩
        exact hih.mpr h

theorem mem_setDelistedCcyToMap {symbol key : String} {map : List (String × ℕ)} :
    key ∈ (setDelistedCcyToMap symbol map).map (·.1) ↔ key = symbol ∨ key ∈ map.map (·.1) := by
  induction map with
  | nil => simp [setDelistedCcyToMap]
  | cons head map ih =>
    obtain ⟨key', errs⟩ := head
    unfold setDelistedCcyToMap
    split
    next heq =>
      subst heq
      simp
    · simp only [List.map_cons, List.mem_cons, ih]
      tauto

/-- What a look-up leaves of the map of delisted currencies and of the transactions. -/
theorem priceStep_found (h : priceStep state lookUp = .ok state') :
    (∀ key ∈ state.ctx.delistedCcyMap.map (·.1), key ∈ state'.ctx.delistedCcyMap.map (·.1)) ∧
      (lookUp.found = none → lookUp.symbol ∈ state'.ctx.delistedCcyMap.map (·.1)) ∧
      ∀ i, (lookUp.calculator.trx = i → lookUp.found = none) →
        state'.trxs[i]? = state.trxs[i]? := by
  unfold priceStep at h
  split at h
  next hfound =>
    cases h
    refine ⟨fun key hkey => ?_, fun _ => ?_, fun _ _ => rfl⟩
    · exact mem_setDelistedCcyToMap.mpr (.inr hkey)
    · exact mem_setDelistedCcyToMap.mpr (.inl rfl)
  next pubTrade trx hfound htrx =>
    unfold calcFrom at h
    split at h
    · cases h
    · cases h
      refine ⟨fun _ hkey => hkey, fun hnone => absurd (hfound.symm.trans hnone) nofun, ?_⟩
      intro i hi
      have hne : lookUp.calculator.trx ≠ i := fun heq => absurd (hfound.symm.trans (hi heq)) nofun
      exact List.getElem?_set_ne hne
  next hfound _ =>
    cases h
    exact ⟨fun _ hkey => hkey, fun hnone => absurd (hfound.symm.trans hnone) nofun, fun _ _ => rfl⟩

theorem priceAll_found (h : priceAll state lookUps = .ok state') :
    (∀ key ∈ state.ctx.delistedCcyMap.map (·.1), key ∈ state'.ctx.delistedCcyMap.map (·.1)) ∧
      (∀ lookUp ∈ lookUps, lookUp.found = none →
        lookUp.symbol ∈ state'.ctx.delistedCcyMap.map (·.1)) ∧
      ∀ i, (∀ lookUp ∈ lookUps, lookUp.calculator.trx = i → lookUp.found = none) →
        state'.trxs[i]? = state.trxs[i]? := by
  induction lookUps generalizing state with
  | nil =>
    cases h
    exact ⟨fun _ hkey => hkey, nofun, fun _ _ => rfl⟩
  | cons lookUp lookUps ih =>
    rw [priceAll_cons] at h
    cases hstep : priceStep state lookUp with
    | error err =>
      rw [hstep] at h
      cases h
    | ok priced =>
      rw [hstep] at h
      obtain ⟨hkeys, hnoted, hkept⟩ := priceStep_found hstep
      obtain ⟨hkeys', hnoted', hkept'⟩ := ih h
      refine ⟨fun key hkey => hkeys' key (hkeys key hkey), ?_, ?_⟩
      · rw [List.forall_mem_cons]
        exact ⟨fun hnone => hkeys' _ (hnoted hnone), hnoted'⟩
      · intro i hi
        obtain ⟨hhead, hrest⟩ := List.forall_mem_cons.mp hi
        exact (hkept' i hrest).trans (hkept i hhead)

end Evaluation

section Conversion

variable {env : TaxEnv} {source : PriceSource} {trxs : List ReportTrx}

/-- A conversion comes to its end unless it is interrupted; a currency without a trade is
noted as delisted, and its transactions stay as they are.  The crypto leg of a forex payment
has its turn before the forex one. -/
structure ConversionCompletes (env : TaxEnv) (source : PriceSource) (trxs : List ReportTrx) :
    Prop where
  completes : ∀ ctx, (convertCurrencies env source ctx trxs).exit = .completed ∨
    ctx.pollsLeft ≠ none ∧ (convertCurrencies env source ctx trxs).exit = .interrupted
  delisted : ∀ ctx, (convertCurrencies env source ctx trxs).exit = .completed →
    ∀ lookUp ∈ priceLookUps env source trxs, lookUp.found = none → lookUp.symbol ∈
      (convertCurrencies env source ctx trxs).state.ctx.delistedCcyMap.map (·.1)
  unpriced : ∀ ctx, (convertCurrencies env source ctx trxs).exit = .completed →
    ∀ i, (∀ lookUp ∈ priceLookUps env source trxs,
      lookUp.calculator.trx = i → lookUp.found = none) →
        (convertCurrencies env source ctx trxs).state.trxs[i]? = trxs[i]?
  ordered : ∀ left lookUp right, priceLookUps env source trxs = left ++ lookUp :: right →
    lookUp.IsForex →
      ∃ crypto ∈ left, crypto.calculator.trx = lookUp.calculator.trx ∧ crypto.IsCrypto

theorem trx_lt_of_mem_priceLookUps {lookUp : PriceLookUp}
    (h : lookUp ∈ priceLookUps env source trxs) : lookUp.calculator.trx < trxs.length := by
  have hmem : lookUp.calculator ∈ (getTrxMapByCcy env trxs).flatMap (·.2) := by
    rw [← map_calculator_priceLookUps env source]
    exact List.mem_map_of_mem h
  obtain ⟨⟨symb, calculators⟩, hentry, hcalculator⟩ := List.mem_flatMap.mp hmem
  obtain ⟨trx, i, htrx, hcalculators⟩ := mem_getTrxMapByCcy hentry hcalculator
  rw [trx_of_mem_ccyCalculators hcalculators]
  exact (List.getElem?_eq_some_iff.mp htrx).1

theorem cryptoPriced_nil (ctx : LookUpCtx) : CryptoPriced ⟨trxs, fun _ => none, ctx⟩ [] := by
  intro i
  simp [CryptoFound, nonzero?]

/-- Every forex look-up has one for its crypto leg before it. -/
theorem priceLookUps_ordered {left right : List PriceLookUp} {lookUp : PriceLookUp}
    (heq : priceLookUps env source trxs = left ++ lookUp :: right) (hforex : lookUp.IsForex) :
    ∃ crypto ∈ left, crypto.calculator.trx = lookUp.calculator.trx ∧ crypto.IsCrypto := by
  have hmem : lookUp.calculator ∈ (getTrxMapByCcy env trxs).flatMap (·.2) := by
    rw [← map_calculator_priceLookUps env source, heq]
    simp
  obtain ⟨calculator, hcalculator, htrx, hkind⟩ := exists_crypto hmem hforex
  rw [← map_calculator_priceLookUps env source] at hcalculator
  obtain ⟨crypto, hcrypto, rfl⟩ := List.mem_map.mp hcalculator
  exact ⟨crypto, crypto_before heq hforex hcrypto hkind htrx, htrx, hkind⟩

theorem convertCurrencies_completed {ctx : LookUpCtx}
    (hexit : (convertCurrencies env source ctx trxs).exit = .completed) :
    ∃ polls, priceAll ⟨trxs, fun _ => none, { ctx with pollsLeft := polls }⟩
      (priceLookUps env source trxs) = .ok (convertCurrencies env source ctx trxs).state := by
  rcases convertCurrencies_cases env source ctx trxs with ⟨-, hinterrupted⟩ | ⟨polls, houtcome⟩
  · rw [hexit] at hinterrupted
    cases hinterrupted
  · refine ⟨polls, ?_⟩
    cases hall : priceAll ⟨trxs, fun _ => none, { ctx with pollsLeft := polls }⟩
      (priceLookUps env source trxs) with
    | error err =>
      rw [hall] at houtcome
      exact nomatch hexit.symm.trans houtcome
    | ok priced =>
      rw [hall] at houtcome
      rw [houtcome.1]

/-- The conversion completes exactly if every public trade that it finds has a price, and it
finds one for a crypto leg where it finds one for the forex currency. -/
theorem conversion_completes_iff (env : TaxEnv) (source : PriceSource) (trxs : List ReportTrx) :
    ConversionCompletes env source trxs ↔ Priceable (priceLookUps env source trxs) := by
  have hlen : ∀ lookUp ∈ priceLookUps env source trxs, lookUp.calculator.trx < trxs.length :=
    fun _ => trx_lt_of_mem_priceLookUps
  rw [← priceableAfter_nil_iff]
  constructor
  · intro hcompletes
    have hexit : (convertCurrencies env source {} trxs).exit = .completed := by
      rcases hcompletes.completes {} with hexit | ⟨hnever, -⟩
      · exact hexit
      · exact absurd rfl hnever
    obtain ⟨polls, hall⟩ := convertCurrencies_completed hexit
    exact (priceAll_isOk_iff hlen (cryptoPriced_nil _)).mp ⟨_, hall⟩
  · intro hpriceable
    constructor
    · intro ctx
      rcases convertCurrencies_cases env source ctx trxs with hinterrupted | ⟨polls, houtcome⟩
      · exact .inr hinterrupted
      · left
        have hok : ∃ priced, priceAll ⟨trxs, fun _ => none, { ctx with pollsLeft := polls }⟩
            (priceLookUps env source trxs) = .ok priced :=
          (priceAll_isOk_iff hlen (cryptoPriced_nil _)).mpr hpriceable
        obtain ⟨priced, hall⟩ := hok
        rw [hall] at houtcome
        exact houtcome.2
    · intro ctx hexit
      obtain ⟨polls, hall⟩ := convertCurrencies_completed hexit
      exact (priceAll_found hall).2.1
    · intro ctx hexit
      obtain ⟨polls, hall⟩ := convertCurrencies_completed hexit
      exact (priceAll_found hall).2.2
    · intro left lookUp right heq hforex
      exact priceLookUps_ordered heq hforex

end Conversion

section Sources

variable {env : TaxEnv} {source : PriceSource} {trxs : List ReportTrx}

/-- All the public trades of a source have prices, also once they are converted. -/
structure PriceSource.Priced (source : PriceSource) : Prop where
  price : ∀ symbol finish, ∀ pubTrade ∈ source.publicTrades symbol finish,
    (nonzero? pubTrade.price).isSome = true
  conversion : ∀ symbol synonymous, source.ccySynonymous symbol = some synonymous →
    ∀ entry ∈ synonymous, entry.2 ≠ 0

theorem synonymousTrades_priced (hpriced : source.Priced) {calculator : TrxPriceCalculator}
    {mts : ℕ} {synonymous : List (String × ℚ)} (hconversion : ∀ entry ∈ synonymous, entry.2 ≠ 0) :
    ∀ pubTrade ∈ synonymousTrades source calculator mts synonymous,
      (nonzero? pubTrade.price).isSome = true := by
  induction synonymous with
  | nil => exact nofun
  | cons head synonymous ih =>
    obtain ⟨symbol, conversion⟩ := head
    obtain ⟨hhead, hrest⟩ := List.forall_mem_cons.mp hconversion
    simp only [synonymousTrades]
    split
    · exact ih hrest
    · intro pubTrade hmem
      obtain ⟨found, hfound, rfl⟩ := List.mem_map.mp hmem
      obtain ⟨price, hprice⟩ := Option.isSome_iff_exists.mp (hpriced.price _ _ found hfound)
      obtain ⟨hprice, hne⟩ := nonzero?_eq_some.mp hprice
      simp only [PubTrade.convert, hprice, Option.map_some]
      rw [nonzero?_some (mul_ne_zero hne hhead)]
      rfl

theorem fetchPubTrades_priced (hpriced : source.Priced) {symbol : String}
    {calculator : TrxPriceCalculator} {mts : ℕ} :
    ∀ pubTrade ∈ fetchPubTrades source symbol calculator mts,
      (nonzero? pubTrade.price).isSome = true := by
  unfold fetchPubTrades synonymousOf
  dsimp only
  split
  · split
    · exact nofun
    · cases hsynonymous : source.ccySynonymous symbol with
      | none => exact nofun
      | some synonymous =>
        exact synonymousTrades_priced hpriced (hpriced.conversion symbol synonymous hsynonymous)
  · exact hpriced.price _ _

/-- A look-up has the time of its transaction, and is listed for it. -/
theorem mem_priceLookUps {lookUp : PriceLookUp} (h : lookUp ∈ priceLookUps env source trxs) :
    ∃ trx, trxs[lookUp.calculator.trx]? = some trx ∧ lookUp.mts = trx.mtsCreate ∧
      (lookUp.symbol, lookUp.calculator) ∈ ccyCalculators env trx lookUp.calculator.trx := by
  have hccy : ∀ (symbol : String) (window : PriceWindow) (fetchedBy : Option TrxPriceCalculator)
      (calculators : List TrxPriceCalculator),
      ∀ l ∈ ccyLookUps source (mtsOf trxs) symbol window fetchedBy calculators,
        l.symbol = symbol ∧ l.calculator ∈ calculators ∧ l.mts = mtsOf trxs l.calculator.trx := by
    intro symbol window fetchedBy calculators
    induction calculators generalizing window fetchedBy with
    | nil => exact nofun
    | cons calculator calculators ih =>
      simp only [ccyLookUps]
      rw [List.forall_mem_cons]
      constructor
      · exact ⟨rfl, List.mem_cons_self, rfl⟩
      · intro l hl
        obtain ⟨hsymbol, hmem, hmts⟩ := ih _ _ l hl
        exact ⟨hsymbol, List.mem_cons_of_mem _ hmem, hmts⟩
  obtain ⟨⟨symbol, calculators⟩, hentry, hmem⟩ := List.mem_flatMap.mp h
  obtain ⟨rfl, hcalculator, hmts⟩ := hccy _ _ _ _ lookUp hmem
  obtain ⟨trx, i, htrx, hlisted⟩ := mem_getTrxMapByCcy hentry hcalculator
  have hi := trx_of_mem_ccyCalculators hlisted
  rw [← hi] at htrx hlisted
  refine ⟨trx, htrx, ?_, hlisted⟩
  rw [hmts, mtsOf, htrx]
  rfl

/-- A calculator with a kind is one of a forex payment. -/
theorem forex_of_mem_ccyCalculators {trx : ReportTrx} {i : ℕ} {symb : String}
    {calculator : TrxPriceCalculator} (h : (symb, calculator) ∈ ccyCalculators env trx i)
    (hkind : calculator.kindOfCcyForTriangulation.isSome = true) :
    env.isForexSymb trx.firstSymb = true ∧ normalizeSymb trx.lastSymb = "USD" := by
  unfold ccyCalculators at h
  dsimp only at h
  split_ifs at h with hforex
  · exact hforex
  all_goals
    cases List.mem_singleton.mp h
    cases hkind

/-- A source with prices for all its trades, which has bitcoins traded for dollars before
every forex payment, lets every conversion complete. -/
theorem priceable_of_source (hends : source.EndsPages) (hpriced : source.Priced)
    (hcrypto : ∀ trx ∈ trxs, env.isForexSymb trx.firstSymb = true →
      normalizeSymb trx.lastSymb = "USD" →
        source.publicTrades "tBTCUSD" trx.mtsCreate ≠ []) :
    Priceable (priceLookUps env source trxs) := by
  have hwindowed := priceLookUps_windowed env hends trxs
  constructor
  · intro lookUp hlookUp pubTrade hfound
    rcases (hwindowed lookUp hlookUp).found with ⟨hnone, -⟩ | ⟨found, hmem, hsome⟩
    · exact nomatch hnone.symm.trans hfound
    · obtain rfl := Option.some.inj (hsome.symm.trans hfound)
      cases hwindowed lookUp hlookUp with
      | empty hwindow => exact nomatch hwindow ▸ hmem
      | page finish _ hwindow =>
        rw [hwindow] at hmem
        exact fetchPubTrades_priced hpriced _ hmem
  · intro lookUp hlookUp _ hforex
    obtain ⟨left, right, heq⟩ := List.append_of_mem hlookUp
    obtain ⟨crypto, hleft, htrx, hkind⟩ := priceLookUps_ordered heq hforex
    have hmem : crypto ∈ priceLookUps env source trxs := by
      rw [heq]
      exact List.mem_append_left _ hleft
    refine ⟨crypto, hmem, htrx, hkind, ?_⟩
    obtain ⟨trx, htrx', hmts, hlisted⟩ := mem_priceLookUps hmem
    have hsymbol := (crypto_of_mem_ccyCalculators hlisted).1 hkind
    have hkindSome : crypto.calculator.kindOfCcyForTriangulation.isSome = true := by
      rw [show crypto.calculator.kindOfCcyForTriangulation = _ from hkind]
      rfl
    obtain ⟨hfirst, hlast⟩ := forex_of_mem_ccyCalculators hlisted hkindSome
    rcases (hwindowed crypto hmem).found with ⟨-, hfresh⟩ | ⟨pubTrade, -, hfound⟩
    · exfalso
      apply hcrypto trx (List.mem_of_getElem? htrx') hfirst hlast
      have hpair : getCcyPairForConversion crypto.symbol crypto.calculator = "tBTCUSD" := by
        unfold getCcyPairForConversion
        rw [hsymbol, show crypto.calculator.kindOfCcyForTriangulation = _ from hkind]
        decide +kernel
      unfold PriceLookUp.fresh fetchPubTrades at hfresh
      rw [hpair, hmts] at hfresh
      dsimp only at hfresh
      split at hfresh
      next hempty => exact List.isEmpty_iff.mp hempty
      · exact hfresh
    · rw [hfound]
      rfl

end Sources

namespace MissingPriceWitness

def forexEnv : TaxEnv := ⟨["USD", "EUR"], fun _ => ("", "")⟩

/-- A margin funding payment in euros without a stored value. -/
def paymentRow : MovementRow where
  _id := 1
  currency := "EUR"
  mtsUpdated := some 5
  amount := some 1
  fees := none
  exactUsdValue := none
  isLedgers := true
  _isAirdropOnWallet := false
  _isMarginFundingPayment := true
  _isAffiliateRebate := false
  _isStakingPayments := false

/-- Bitcoins are traded for euros, but not for dollars. -/
def source : PriceSource where
  publicTrades := fun symbol _ => if symbol = "tBTCEUR" then [⟨4, some 20000⟩] else []
  ccySynonymous := fun _ => none

theorem conversion_throws :
    remapMovement forexEnv paymentRow = .forConvToUsd (paymentRow.trx 5 1) ∧
      (convertCurrencies forexEnv source {} [paymentRow.trx 5 1]).exit = .thrown ⟨⟩ ∧
      ¬ ConversionCompletes forexEnv source [paymentRow.trx 5 1] := by
  have hexit : (convertCurrencies forexEnv source {} [paymentRow.trx 5 1]).exit =
      .thrown ⟨⟩ := by decide +kernel
  refine ⟨by decide +kernel, hexit, fun hcompletes => ?_⟩
  rcases hcompletes.completes {} with hcompleted | ⟨hnever, -⟩
  · rw [hexit] at hcompleted
    cases hcompleted
  · exact hnever rfl

end MissingPriceWitness

end ReportsFramework
