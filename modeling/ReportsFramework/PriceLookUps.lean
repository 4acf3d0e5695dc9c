/-
The look-ups behind a conversion: for every calculator the window that its turn comes to.
They depend on the source and on the times only, and an interruption just cuts them short.
-/
import ReportsFramework.ConvertCurrencies
import ReportsFramework.LookUpSpec

namespace ReportsFramework

section Windows

/-- The trades of the first synonym that has some. -/
def synonymousTrades (source : PriceSource) (calculator : TrxPriceCalculator) (finish : ℕ) :
    List (String × ℚ) → List PubTrade
  | [] => []
  | (symbol, conversion) :: synonymous =>
      let res := source.publicTrades (getCcyPairForConversion symbol calculator) finish
      if res.isEmpty then synonymousTrades source calculator finish synonymous
      else res.map (PubTrade.convert conversion)

/-- A calculator without a kind of triangulation may use the synonyms. -/
def synonymousOf (source : PriceSource) (symbol : String) (calculator : TrxPriceCalculator) :
    Option (List (String × ℚ)) :=
  if calculator.kindOfCcyForTriangulation.isSome then none else source.ccySynonymous symbol

/-- The window of a turn that nobody interrupts. -/
def nextWindow (source : PriceSource) (symbol : String) (calculator : TrxPriceCalculator) (mts : ℕ)
    (window : PriceWindow) : PriceWindow :=
  if window.pubTrades.isEmpty || window.isOutside mts then
    let pubTrades := source.publicTrades (getCcyPairForConversion symbol calculator) mts
    if pubTrades.isEmpty then
      match synonymousOf source symbol calculator with
      | some synonymous => .ofPage (synonymousTrades source calculator mts synonymous) mts
      | none => { window with pubTrades := [] }
    else .ofPage pubTrades mts
  else window

/-- A calculator with the window of its turn, and with the calculator that has fetched it. -/
structure PriceLookUp where
  symbol : String
  calculator : TrxPriceCalculator
  mts : ℕ
  window : PriceWindow
  fetchedBy : TrxPriceCalculator
deriving DecidableEq, Repr

def PriceLookUp.found (lookUp : PriceLookUp) : Option PubTrade :=
  lookUp.window.find? lookUp.mts

def ccyLookUps (source : PriceSource) (mtsOf : ℕ → ℕ) (symbol : String) :
    PriceWindow → Option TrxPriceCalculator → List TrxPriceCalculator → List PriceLookUp
  | _, _, [] => []
  | window, fetchedBy, calculator :: calculators =>
      let mts := mtsOf calculator.trx
      let fetchedBy := if window.pubTrades.isEmpty || window.isOutside mts then calculator
        else fetchedBy.getD calculator
      let window := nextWindow source symbol calculator mts window
      ⟨symbol, calculator, mts, window, fetchedBy⟩ ::
        ccyLookUps source mtsOf symbol window (some fetchedBy) calculators

def mapLookUps (source : PriceSource) (mtsOf : ℕ → ℕ)
    (map : List (String × List TrxPriceCalculator)) : List PriceLookUp :=
  map.flatMap fun (symbol, calculators) => ccyLookUps source mtsOf symbol {} none calculators

def mtsOf (trxs : List ReportTrx) (i : ℕ) : ℕ :=
  (trxs[i]?.map (·.mtsCreate)).getD 0

/-- In the order of their turns. -/
def priceLookUps (env : TaxEnv) (source : PriceSource) (trxs : List ReportTrx) :
    List PriceLookUp :=
  mapLookUps source (mtsOf trxs) (getTrxMapByCcy env trxs)

end Windows

section Turns

variable {source : PriceSource} {symbol : String} {calculator : TrxPriceCalculator} {mts : ℕ}
  {ctx : LookUpCtx} {window : PriceWindow} {state : ConvState} {trx : ReportTrx}

/-- A context after some polls that have answered no. -/
structure Polled (ctx ctx' : LookUpCtx) : Prop where
  delisted : ctx'.delistedCcyMap = ctx.delistedCcyMap
  never : ctx.pollsLeft = none → ctx'.pollsLeft = none

theorem Polled.refl (ctx : LookUpCtx) : Polled ctx ctx := ⟨rfl, id⟩

theorem Polled.trans {ctx₁ ctx₂ ctx₃ : LookUpCtx} (h : Polled ctx₁ ctx₂) (h' : Polled ctx₂ ctx₃) :
    Polled ctx₁ ctx₃ :=
  ⟨h'.delisted.trans h.delisted, fun hnever => h'.never (h.never hnever)⟩

theorem polled_polled (ctx : LookUpCtx) : Polled ctx ctx.polled := by
  constructor
  · rfl
  · intro hnever
    simp [LookUpCtx.polled, hnever]

theorem not_never_of_interrupted (h : ctx.hasInterrupted = true) : ctx.pollsLeft ≠ none := by
  intro hnever
  rw [LookUpCtx.hasInterrupted_of_never hnever] at h
  cases h

/-- A fetch has the trades of the source, or it was interrupted. -/
theorem getPublicTrades_cases (source : PriceSource) (ctx : LookUpCtx) (symbol : String)
    (finish : ℕ) :
    (ctx.hasInterrupted = true ∧ getPublicTrades source ctx symbol finish = ([], ctx)) ∨
      ∃ ctx', Polled ctx ctx' ∧
        getPublicTrades source ctx symbol finish = (source.publicTrades symbol finish, ctx') := by
  unfold getPublicTrades
  cases hctx : ctx.hasInterrupted with
  | true => exact .inl ⟨rfl, rfl⟩
  | false => exact .inr ⟨ctx.polled, polled_polled ctx, rfl⟩

theorem fetchSynonymous_of_interrupted (h : ctx.hasInterrupted = true)
    (synonymous : List (String × ℚ)) :
    fetchSynonymous source calculator mts ctx synonymous = (none, ctx) ∨
      fetchSynonymous source calculator mts ctx synonymous = (some [], ctx) := by
  cases synonymous with
  | nil => exact .inr rfl
  | cons head synonymous =>
    left
    simp only [fetchSynonymous, h, ↓reduceIte]

/-- The loop over the synonyms has the trades of the first one with some, or it was
interrupted. -/
theorem fetchSynonymous_cases (source : PriceSource) (calculator : TrxPriceCalculator) (mts : ℕ)
    (ctx : LookUpCtx) (synonymous : List (String × ℚ)) :
    (∃ ctx', ctx'.hasInterrupted = true ∧ ctx.pollsLeft ≠ none ∧
      (fetchSynonymous source calculator mts ctx synonymous = (none, ctx') ∨
        fetchSynonymous source calculator mts ctx synonymous = (some [], ctx'))) ∨
      ∃ ctx', Polled ctx ctx' ∧ fetchSynonymous source calculator mts ctx synonymous =
        (some (synonymousTrades source calculator mts synonymous), ctx') := by
  induction synonymous generalizing ctx with
  | nil => exact .inr ⟨ctx, .refl ctx, rfl⟩
  | cons head synonymous ih =>
    obtain ⟨symbol, conversion⟩ := head
    cases hctx : ctx.hasInterrupted with
    | true =>
      left
      exact ⟨ctx, hctx, not_never_of_interrupted hctx, fetchSynonymous_of_interrupted hctx _⟩
    | false =>
      have hpolled := polled_polled ctx
      simp only [fetchSynonymous, synonymousTrades, hctx, Bool.false_eq_true, ↓reduceIte]
      rcases getPublicTrades_cases source ctx.polled (getCcyPairForConversion symbol calculator) mts
        with ⟨hinterrupted, hfetch⟩ | ⟨ctx', hctx', hfetch⟩
      · left
        rw [hfetch]
        exact ⟨ctx.polled, hinterrupted,
          fun hnever => not_never_of_interrupted hinterrupted (hpolled.never hnever),
          fetchSynonymous_of_interrupted hinterrupted synonymous⟩
      · rw [hfetch]
        dsimp only
        split
        · rcases ih ctx' with ⟨ctx'', hinterrupted, hnever, hloop⟩ | ⟨ctx'', hctx'', hloop⟩
          · left
            exact ⟨ctx'', hinterrupted,
              fun h => hnever ((hpolled.trans hctx').never h), hloop⟩
          · exact .inr ⟨ctx'', (hpolled.trans hctx').trans hctx'', hloop⟩
        · exact .inr ⟨ctx', hpolled.trans hctx', rfl⟩

/-- What a turn does with its window. -/
def settle (symbol : String) (state : ConvState) (window : PriceWindow)
    (calculator : TrxPriceCalculator) (trx : ReportTrx) : ConvTurn :=
  match window.find? trx.mtsCreate with
  | none => { state := { state with ctx := state.ctx.setDelisted symbol }, window }
  | some pubTrade =>
      match calcFrom state calculator trx pubTrade with
      | .error err => { state, window, exit := .thrown err }
      | .ok state => { state, window }

theorem find?_of_empty (h : window.pubTrades = []) : window.find? mts = none := by
  simp [PriceWindow.find?, h]

theorem takePrice_of_interrupted (h : state.ctx.hasInterrupted = true)
    (hnone : window.find? trx.mtsCreate = none) :
    (takePrice symbol state window calculator trx).exit = .interrupted := by
  simp only [takePrice, hnone, h, ↓reduceIte]

theorem takePrice_cases (symbol : String) (state : ConvState) (window : PriceWindow)
    (calculator : TrxPriceCalculator) (trx : ReportTrx) :
    (state.ctx.hasInterrupted = true ∧
      (takePrice symbol state window calculator trx).exit = .interrupted) ∨
      ∃ ctx', Polled state.ctx ctx' ∧ takePrice symbol state window calculator trx =
        settle symbol { state with ctx := ctx' } window calculator trx := by
  unfold takePrice settle
  cases hfind : window.find? trx.mtsCreate with
  | none =>
    cases hctx : state.ctx.hasInterrupted with
    | true => exact .inl ⟨rfl, rfl⟩
    | false => exact .inr ⟨state.ctx.polled, polled_polled _, rfl⟩
  | some pubTrade => exact .inr ⟨state.ctx, .refl _, rfl⟩

/-- The window of a turn is the next one, or the turn is interrupted. -/
theorem refresh_cases (source : PriceSource) (symbol : String) (calculator : TrxPriceCalculator)
    (mts : ℕ) (ctx : LookUpCtx) (window : PriceWindow) :
    (ctx.pollsLeft ≠ none ∧ ((∃ ctx', refresh source symbol calculator mts ctx window =
        .interrupted ctx') ∨
      ∃ ctx', ctx'.hasInterrupted = true ∧ refresh source symbol calculator mts ctx window =
        .ready (.ofPage [] mts) ctx')) ∨
      ∃ ctx', Polled ctx ctx' ∧
        (refresh source symbol calculator mts ctx window =
            .ready (nextWindow source symbol calculator mts window) ctx' ∨
          (nextWindow source symbol calculator mts window).pubTrades = [] ∧
            refresh source symbol calculator mts ctx window =
              .delisted (nextWindow source symbol calculator mts window)
                (ctx'.setDelisted symbol)) := by
  unfold refresh nextWindow synonymousOf
  split
  · rcases getPublicTrades_cases source ctx (getCcyPairForConversion symbol calculator) mts
      with ⟨hinterrupted, hfetch⟩ | ⟨ctx', hctx', hfetch⟩
    · left
      refine ⟨not_never_of_interrupted hinterrupted, ?_⟩
      rw [hfetch]
      cases calculator.kindOfCcyForTriangulation with
      | some kind => exact .inl ⟨ctx, by simp [hinterrupted]⟩
      | none =>
        cases source.ccySynonymous symbol with
        | none => exact .inl ⟨ctx, by simp [hinterrupted]⟩
        | some synonymous =>
          have hcut : fetchSynonymous source calculator mts ctx synonymous = (none, ctx) ∨
              fetchSynonymous source calculator mts ctx synonymous = (some [], ctx) :=
            fetchSynonymous_of_interrupted hinterrupted synonymous
          rcases hcut with hloop | hloop
          · exact .inl ⟨ctx, by simp [hloop]⟩
          · exact .inr ⟨ctx, hinterrupted, by simp [hloop]⟩
    · rw [hfetch]
      dsimp only
      cases hempty :
        (source.publicTrades (getCcyPairForConversion symbol calculator) mts).isEmpty with
      | false => exact .inr ⟨ctx', hctx', .inl rfl⟩
      | true =>
        have hcut : ctx'.hasInterrupted = true → ctx.pollsLeft ≠ none :=
          fun hinterrupted hnever => not_never_of_interrupted hinterrupted (hctx'.never hnever)
        cases calculator.kindOfCcyForTriangulation with
        | some kind =>
          cases hinterrupted : ctx'.hasInterrupted with
          | true => exact .inl ⟨hcut hinterrupted, .inl ⟨ctx', by simp⟩⟩
          | false =>
            right
            refine ⟨ctx'.polled, hctx'.trans (polled_polled ctx'), .inr ?_⟩
            simp
        | none =>
          cases source.ccySynonymous symbol with
          | none =>
            cases hinterrupted : ctx'.hasInterrupted with
            | true => exact .inl ⟨hcut hinterrupted, .inl ⟨ctx', by simp⟩⟩
            | false =>
              right
              refine ⟨ctx'.polled, hctx'.trans (polled_polled ctx'), .inr ?_⟩
              simp
          | some synonymous =>
            rcases fetchSynonymous_cases source calculator mts ctx' synonymous with
              ⟨ctx'', hinterrupted, hnever, hloop | hloop⟩ | ⟨ctx'', hctx'', hloop⟩
            · left
              exact ⟨fun h => hnever (hctx'.never h), .inl ⟨ctx'', by simp [hloop]⟩⟩
            · left
              refine ⟨fun h => hnever (hctx'.never h), .inr ⟨ctx'', hinterrupted, ?_⟩⟩
              simp [hloop]
            · right
              exact ⟨ctx'', hctx'.trans hctx'', .inl (by simp [hloop])⟩
  · exact .inr ⟨ctx, .refl ctx, .inl rfl⟩

/-- The step lemma: a turn settles the next window, or it is interrupted. -/
theorem convTurn_cases (source : PriceSource) (symbol : String) (state : ConvState)
    (window : PriceWindow) (calculator : TrxPriceCalculator) (trx : ReportTrx) :
    (state.ctx.pollsLeft ≠ none ∧
      (convTurn source symbol state window calculator trx).exit = .interrupted) ∨
      ∃ ctx', Polled state.ctx ctx' ∧ convTurn source symbol state window calculator trx =
        settle symbol { state with ctx := ctx' }
          (nextWindow source symbol calculator trx.mtsCreate window) calculator trx := by
  unfold convTurn
  rcases refresh_cases source symbol calculator trx.mtsCreate state.ctx window with
    ⟨hnever, hleft⟩ | ⟨ctx', hctx', hready | ⟨hempty, hdelisted⟩⟩
  · left
    refine ⟨hnever, ?_⟩
    rcases hleft with ⟨ctx', hrefresh⟩ | ⟨ctx', hinterrupted, hrefresh⟩
    · rw [hrefresh]
    · rw [hrefresh]
      exact takePrice_of_interrupted hinterrupted (find?_of_empty rfl)
  · rw [hready]
    rcases takePrice_cases symbol { state with ctx := ctx' }
      (nextWindow source symbol calculator trx.mtsCreate window) calculator trx with
        ⟨hinterrupted, hexit⟩ | ⟨ctx'', hctx'', hsettle⟩
    · left
      exact ⟨fun hnever => not_never_of_interrupted hinterrupted (hctx'.never hnever), hexit⟩
    · exact .inr ⟨ctx'', hctx'.trans hctx'', hsettle⟩
  · right
    refine ⟨ctx', hctx', ?_⟩
    rw [hdelisted]
    unfold settle
    rw [find?_of_empty hempty]

end Turns

section Run

/-- What a turn does once its window is known. -/
def priceStep (state : ConvState) (lookUp : PriceLookUp) :
    Except PubTradePriceFindForTrxTaxError ConvState :=
  match lookUp.found, state.trxs[lookUp.calculator.trx]? with
  | none, _ => .ok { state with ctx := state.ctx.setDelisted lookUp.symbol }
  | some pubTrade, some trx => calcFrom state lookUp.calculator trx pubTrade
  | some _, none => .ok state

def priceAll (state : ConvState) (lookUps : List PriceLookUp) :
    Except PubTradePriceFindForTrxTaxError ConvState :=
  lookUps.foldlM priceStep state

def ConvState.withPolls (state : ConvState) (pollsLeft : Option ℕ) : ConvState :=
  { state with ctx := { state.ctx with pollsLeft } }

/-- How a loop is left after its look-ups. -/
def ConvOutcome : Except PubTradePriceFindForTrxTaxError ConvState → ConvState → ConvExit → Prop
  | .error err, _, exit => exit = .thrown err
  | .ok priced, state, exit => state = priced ∧ exit = .completed

variable {source : PriceSource} {symbol : String} {window : PriceWindow} {state : ConvState}
  {lookUp : PriceLookUp}

@[simp] theorem withPolls_withPolls (state : ConvState) (polls polls' : Option ℕ) :
    (state.withPolls polls).withPolls polls' = state.withPolls polls' := rfl

theorem withPolls_of_polled {ctx : LookUpCtx} (h : Polled state.ctx ctx) :
    { state with ctx := ctx } = state.withPolls ctx.pollsLeft := by
  have := h.delisted
  cases ctx
  subst this
  rfl

theorem calcFrom_withPolls (state : ConvState) (calculator : TrxPriceCalculator) (trx : ReportTrx)
    (pubTrade : PubTrade) (polls : Option ℕ) :
    calcFrom (state.withPolls polls) calculator trx pubTrade =
      (calcFrom state calculator trx pubTrade).map (·.withPolls polls) := by
  simp only [calcFrom, ConvState.withPolls]
  cases calculator.calcPrice pubTrade.price (state.cryptoPrices calculator.trx) trx <;> rfl

/-- The polls and the look-ups do not touch each other. -/
theorem priceStep_withPolls (state : ConvState) (lookUp : PriceLookUp) (polls : Option ℕ) :
    priceStep (state.withPolls polls) lookUp =
      (priceStep state lookUp).map (·.withPolls polls) := by
  have htrxs : (state.withPolls polls).trxs = state.trxs := rfl
  unfold priceStep
  rw [htrxs]
  cases lookUp.found with
  | none => rfl
  | some pubTrade =>
    cases state.trxs[lookUp.calculator.trx]? with
    | none => rfl
    | some trx => exact calcFrom_withPolls state lookUp.calculator trx pubTrade polls

theorem priceAll_cons (state : ConvState) (lookUp : PriceLookUp) (lookUps : List PriceLookUp) :
    priceAll state (lookUp :: lookUps) =
      (priceStep state lookUp).bind fun state => priceAll state lookUps :=
  rfl

theorem priceAll_append (state : ConvState) (left right : List PriceLookUp) :
    priceAll state (left ++ right) =
      (priceAll state left).bind fun state => priceAll state right := by
  unfold priceAll
  rw [List.foldlM_append]
  rfl

/-- The times of the transactions stay. -/
theorem calcPrice_mtsCreate {calculator : TrxPriceCalculator} {price triangulation : Option ℚ}
    {trx trx' : ReportTrx} (h : calculator.calcPrice price triangulation trx = .ok trx') :
    trx'.mtsCreate = trx.mtsCreate := by
  have hprices : ∀ name price, (trx.calcPrices name price).mtsCreate = trx.mtsCreate := by
    intro name price
    cases name <;> simp only [ReportTrx.calcPrices] <;> split <;> rfl
  unfold TrxPriceCalculator.calcPrice at h
  split at h
  · cases h
  · split at h
    · cases h
      rfl
    · split at h
      · cases h
      · cases h
        exact hprices _ _
    · cases h
      exact hprices _ _

theorem mtsOf_set {trxs : List ReportTrx} {i : ℕ} {trx trx' : ReportTrx} (hi : trxs[i]? = some trx)
    (hmts : trx'.mtsCreate = trx.mtsCreate) : mtsOf (trxs.set i trx') = mtsOf trxs := by
  funext j
  unfold mtsOf
  rw [List.getElem?_set]
  split
  next heq =>
    subst heq
    obtain ⟨hlt, -⟩ := List.getElem?_eq_some_iff.mp hi
    rw [if_pos hlt, hi, Option.map_some, Option.map_some, hmts]
  · rfl

theorem priceStep_frame {state' : ConvState} (h : priceStep state lookUp = .ok state') :
    mtsOf state'.trxs = mtsOf state.trxs ∧ state'.trxs.length = state.trxs.length := by
  unfold priceStep at h
  split at h
  · cases h
    exact ⟨rfl, rfl⟩
  next pubTrade trx _ htrx =>
    unfold calcFrom at h
    split at h
    · cases h
    next trx' hcalc =>
      cases h
      exact ⟨mtsOf_set htrx (calcPrice_mtsCreate hcalc), List.length_set⟩
  · cases h
    exact ⟨rfl, rfl⟩

/-- A turn settles its look-up. -/
theorem settle_outcome (symbol : String) (state : ConvState) (window : PriceWindow)
    {calculator : TrxPriceCalculator} (fetchedBy : TrxPriceCalculator) {trx : ReportTrx}
    (htrx : state.trxs[calculator.trx]? = some trx) :
    (settle symbol state window calculator trx).window = window ∧
      ConvOutcome (priceStep state ⟨symbol, calculator, trx.mtsCreate, window, fetchedBy⟩)
        (settle symbol state window calculator trx).state
        (settle symbol state window calculator trx).exit := by
  unfold settle priceStep PriceLookUp.found
  dsimp only
  rw [htrx]
  cases window.find? trx.mtsCreate with
  | none => exact ⟨rfl, rfl, rfl⟩
  | some pubTrade =>
    dsimp only
    cases calcFrom state calculator trx pubTrade with
    | error err => exact ⟨rfl, rfl⟩
    | ok state' => exact ⟨rfl, rfl, rfl⟩

theorem pollsLeft_priceStep {state' : ConvState} {polls : Option ℕ}
    (h : priceStep (state.withPolls polls) lookUp = .ok state') : state'.ctx.pollsLeft = polls := by
  rw [priceStep_withPolls] at h
  cases hstep : priceStep state lookUp with
  | error err =>
    rw [hstep] at h
    cases h
  | ok priced =>
    rw [hstep] at h
    cases h
    rfl

/-- The run lemma of a currency. -/
theorem convertCcy_cases (source : PriceSource) (symbol : String) (state : ConvState)
    (window : PriceWindow) (fetchedBy : Option TrxPriceCalculator)
    (calculators : List TrxPriceCalculator)
    (hlen : ∀ calculator ∈ calculators, calculator.trx < state.trxs.length) :
    (state.ctx.pollsLeft ≠ none ∧
      (convertCcy source symbol state window calculators).exit = .interrupted) ∨
      ∃ polls, (state.ctx.pollsLeft = none → polls = none) ∧
        ConvOutcome (priceAll (state.withPolls polls)
            (ccyLookUps source (mtsOf state.trxs) symbol window fetchedBy calculators))
          (convertCcy source symbol state window calculators).state
          (convertCcy source symbol state window calculators).exit := by
  induction calculators generalizing state window fetchedBy with
  | nil => exact .inr ⟨state.ctx.pollsLeft, id, rfl, rfl⟩
  | cons calculator calculators ih =>
    obtain ⟨hcalculator, hlen⟩ := List.forall_mem_cons.mp hlen
    cases hctx : state.ctx.hasInterrupted with
    | true =>
      left
      refine ⟨not_never_of_interrupted hctx, ?_⟩
      simp only [convertCcy, hctx, ↓reduceIte]
    | false =>
      have htrx : state.trxs[calculator.trx]? = some state.trxs[calculator.trx] :=
        List.getElem?_eq_getElem hcalculator
      have hmts : mtsOf state.trxs calculator.trx = state.trxs[calculator.trx].mtsCreate := by
        simp [mtsOf, htrx]
      simp only [convertCcy, ccyLookUps, hctx, htrx, hmts, Bool.false_eq_true, ↓reduceIte]
      generalize state.trxs[calculator.trx] = trx at htrx
      rcases convTurn_cases source symbol { state with ctx := state.ctx.polled } window calculator
        trx with ⟨hnever, hexit⟩ | ⟨ctx', hctx', hturn⟩
      · left
        refine ⟨fun h => hnever ((polled_polled state.ctx).never h), ?_⟩
        rw [hexit]
        exact hexit
      · have hpolled : Polled state.ctx ctx' := (polled_polled state.ctx).trans hctx'
        have hsettled := withPolls_of_polled hpolled
        simp only at hturn
        rw [hsettled] at hturn
        rw [hturn]
        generalize nextWindow source symbol calculator trx.mtsCreate window = window'
        generalize (if (window.pubTrades.isEmpty || window.isOutside trx.mtsCreate) = true then
          calculator else fetchedBy.getD calculator) = fetchedBy'
        obtain ⟨hwindow, houtcome⟩ :=
          settle_outcome symbol (state.withPolls ctx'.pollsLeft) window' fetchedBy' htrx
        generalize settle symbol (state.withPolls ctx'.pollsLeft) window' calculator trx = turn
          at hwindow houtcome ⊢
        cases hstep : priceStep (state.withPolls ctx'.pollsLeft)
          ⟨symbol, calculator, trx.mtsCreate, window', fetchedBy'⟩ with
        | error err =>
          right
          rw [hstep] at houtcome
          have hexit : turn.exit = .thrown err := houtcome
          refine ⟨ctx'.pollsLeft, hpolled.never, ?_⟩
          rw [priceAll_cons, hstep, hexit]
          exact hexit
        | ok priced =>
          rw [hstep] at houtcome
          obtain ⟨hstate, hexit⟩ := houtcome
          obtain ⟨hframe, hlength⟩ := priceStep_frame hstep
          have hpolls : priced.ctx.pollsLeft = ctx'.pollsLeft := pollsLeft_priceStep hstep
          rw [hexit, hstate, hwindow]
          dsimp only
          have hlen' : ∀ c ∈ calculators, c.trx < priced.trxs.length := by
            intro c hc
            rw [hlength]
            exact hlen c hc
          rcases ih priced window' (some fetchedBy') hlen' with
            ⟨hnever, hrest⟩ | ⟨polls, hnever, hrest⟩
          · left
            refine ⟨fun h => hnever ?_, hrest⟩
            rw [hpolls]
            exact hpolled.never h
          · right
            refine ⟨polls, fun h => hnever ?_, ?_⟩
            · rw [hpolls]
              exact hpolled.never h
            · have hmoved := priceStep_withPolls (state.withPolls ctx'.pollsLeft)
                ⟨symbol, calculator, trx.mtsCreate, window', fetchedBy'⟩ polls
              rw [withPolls_withPolls, hstep] at hmoved
              have hframe' : mtsOf priced.trxs = mtsOf state.trxs := hframe
              rw [hframe'] at hrest
              rw [priceAll_cons, hmoved]
              exact hrest

theorem priceAll_withPolls (state : ConvState) (lookUps : List PriceLookUp) (polls : Option ℕ) :
    priceAll (state.withPolls polls) lookUps =
      (priceAll state lookUps).map (·.withPolls polls) := by
  induction lookUps generalizing state with
  | nil => rfl
  | cons lookUp lookUps ih =>
    rw [priceAll_cons, priceAll_cons, priceStep_withPolls]
    cases priceStep state lookUp with
    | error err => rfl
    | ok priced => exact ih priced

theorem pollsLeft_priceAll {state' : ConvState} {polls : Option ℕ} {lookUps : List PriceLookUp}
    (h : priceAll (state.withPolls polls) lookUps = .ok state') : state'.ctx.pollsLeft = polls := by
  rw [priceAll_withPolls] at h
  cases hall : priceAll state lookUps with
  | error err =>
    rw [hall] at h
    cases h
  | ok priced =>
    rw [hall] at h
    cases h
    rfl

theorem priceAll_frame {state' : ConvState} {lookUps : List PriceLookUp}
    (h : priceAll state lookUps = .ok state') :
    mtsOf state'.trxs = mtsOf state.trxs ∧ state'.trxs.length = state.trxs.length := by
  induction lookUps generalizing state with
  | nil =>
    cases h
    exact ⟨rfl, rfl⟩
  | cons lookUp lookUps ih =>
    rw [priceAll_cons] at h
    cases hstep : priceStep state lookUp with
    | error err =>
      rw [hstep] at h
      cases h
    | ok priced =>
      rw [hstep] at h
      obtain ⟨hmts, hlength⟩ := priceStep_frame hstep
      obtain ⟨hmts', hlength'⟩ := ih h
      exact ⟨hmts'.trans hmts, hlength'.trans hlength⟩

/-- The run lemma of the currencies. -/
theorem convertMap_cases (source : PriceSource) (state : ConvState)
    (map : List (String × List TrxPriceCalculator))
    (hlen : ∀ entry ∈ map, ∀ calculator ∈ entry.2, calculator.trx < state.trxs.length) :
    (state.ctx.pollsLeft ≠ none ∧ (convertMap source state map).exit = .interrupted) ∨
      ∃ polls, (state.ctx.pollsLeft = none → polls = none) ∧
        ConvOutcome (priceAll (state.withPolls polls) (mapLookUps source (mtsOf state.trxs) map))
          (convertMap source state map).state (convertMap source state map).exit := by
  induction map generalizing state with
  | nil => exact .inr ⟨state.ctx.pollsLeft, id, rfl, rfl⟩
  | cons entry map ih =>
    obtain ⟨symbol, calculators⟩ := entry
    obtain ⟨hentry, hlen⟩ := List.forall_mem_cons.mp hlen
    cases hctx : state.ctx.hasInterrupted with
    | true =>
      left
      refine ⟨not_never_of_interrupted hctx, ?_⟩
      simp only [convertMap, hctx, ↓reduceIte]
    | false =>
      have hpolled := polled_polled state.ctx
      have hlookUps : mapLookUps source (mtsOf state.trxs) ((symbol, calculators) :: map) =
          ccyLookUps source (mtsOf state.trxs) symbol {} none calculators ++
            mapLookUps source (mtsOf state.trxs) map := List.flatMap_cons
      rw [hlookUps]
      simp only [convertMap, hctx, Bool.false_eq_true, ↓reduceIte]
      have hcases :=
        convertCcy_cases source symbol { state with ctx := state.ctx.polled } {} none calculators
          hentry
      rcases hcases with ⟨hnever, hexit⟩ | ⟨polls, hnever, houtcome⟩
      · left
        refine ⟨fun h => hnever (hpolled.never h), ?_⟩
        rw [hexit]
      · generalize convertCcy source symbol { state with ctx := state.ctx.polled } {} calculators =
          turn at houtcome ⊢
        have hnever' : state.ctx.pollsLeft = none → polls = none :=
          fun h => hnever (hpolled.never h)
        cases hccy : priceAll (state.withPolls polls)
          (ccyLookUps source (mtsOf state.trxs) symbol {} none calculators) with
        | error err =>
          right
          have hexit : turn.exit = .thrown err := by
            change ConvOutcome (priceAll (state.withPolls polls) _) _ _ at houtcome
            rw [hccy] at houtcome
            exact houtcome
          refine ⟨polls, hnever', ?_⟩
          rw [priceAll_append, hccy, hexit]
          rfl
        | ok priced =>
          change ConvOutcome (priceAll (state.withPolls polls) _) _ _ at houtcome
          rw [hccy] at houtcome
          obtain ⟨hstate, hexit⟩ := houtcome
          obtain ⟨hmts, hlength⟩ := priceAll_frame hccy
          have hpolls : priced.ctx.pollsLeft = polls := pollsLeft_priceAll hccy
          have hmts' : mtsOf priced.trxs = mtsOf state.trxs := hmts
          rw [hexit, hstate]
          dsimp only
          have hlen' : ∀ entry ∈ map, ∀ c ∈ entry.2, c.trx < priced.trxs.length := by
            intro entry hentry c hc
            rw [hlength]
            exact hlen entry hentry c hc
          rcases ih priced hlen' with ⟨hrestNever, hrest⟩ | ⟨polls', hrestNever, hrest⟩
          · left
            refine ⟨fun h => hrestNever ?_, hrest⟩
            rw [hpolls]
            exact hnever' h
          · right
            refine ⟨polls', fun h => hrestNever ?_, ?_⟩
            · rw [hpolls]
              exact hnever' h
            · have hmoved := priceAll_withPolls (state.withPolls polls)
                (ccyLookUps source (mtsOf state.trxs) symbol {} none calculators) polls'
              rw [withPolls_withPolls, hccy] at hmoved
              rw [hmts'] at hrest
              rw [priceAll_append, hmoved]
              exact hrest

/-- A conversion prices its look-ups, as far as it comes. -/
theorem convertCurrencies_cases (env : TaxEnv) (source : PriceSource) (ctx : LookUpCtx)
    (trxs : List ReportTrx) :
    (ctx.pollsLeft ≠ none ∧ (convertCurrencies env source ctx trxs).exit = .interrupted) ∨
      ∃ polls, ConvOutcome
        (priceAll ⟨trxs, fun _ => none, { ctx with pollsLeft := polls }⟩
          (priceLookUps env source trxs))
        (convertCurrencies env source ctx trxs).state
        (convertCurrencies env source ctx trxs).exit := by
  have hlen : ∀ entry ∈ getTrxMapByCcy env trxs, ∀ calculator ∈ entry.2,
      calculator.trx < trxs.length := by
    intro entry hentry calculator hcalculator
    obtain ⟨trx, i, htrx, hmem⟩ := mem_getTrxMapByCcy hentry hcalculator
    obtain ⟨hlt, -⟩ := List.getElem?_eq_some_iff.mp htrx
    rw [trx_of_mem_ccyCalculators hmem]
    exact hlt
  rcases convertMap_cases source ⟨trxs, fun _ => none, ctx⟩ (getTrxMapByCcy env trxs) hlen with
    hinterrupted | ⟨polls, -, houtcome⟩
  · exact .inl hinterrupted
  · exact .inr ⟨polls, houtcome⟩

end Run

section Fetched

variable {source : PriceSource} {symbol : String} {calculator : TrxPriceCalculator} {mts : ℕ}
  {window : PriceWindow}

/-- The trades of a fetch: those of the pair, or of the first synonym with some. -/
def fetchPubTrades (source : PriceSource) (symbol : String) (calculator : TrxPriceCalculator)
    (finish : ℕ) : List PubTrade :=
  let pubTrades := source.publicTrades (getCcyPairForConversion symbol calculator) finish
  if pubTrades.isEmpty then
    synonymousTrades source calculator finish ((synonymousOf source symbol calculator).getD [])
  else pubTrades

/-- What a fetch up to the time of the look-up has. -/
def PriceLookUp.fresh (source : PriceSource) (lookUp : PriceLookUp) : List PubTrade :=
  fetchPubTrades source lookUp.symbol lookUp.calculator lookUp.mts

/-- The pages have no trade after their end. -/
def PriceSource.EndsPages (source : PriceSource) : Prop :=
  ∀ symbol finish, ∀ pubTrade ∈ source.publicTrades symbol finish, pubTrade.mts ≤ finish

/-- The window of a look-up is a page that covers its time, or there was no trade to
fetch. -/
inductive PriceLookUp.Windowed (source : PriceSource) (lookUp : PriceLookUp) : Prop
  | empty (hwindow : lookUp.window.pubTrades = []) (hfresh : lookUp.fresh source = [])
  | page (finish : ℕ) (hle : lookUp.mts ≤ finish)
      (hwindow : lookUp.window =
        .ofPage (fetchPubTrades source lookUp.symbol lookUp.fetchedBy finish) finish)
      (hne : lookUp.window.pubTrades ≠ [])
      (hcovers : lookUp.window.isOutside lookUp.mts = false)

/-- A window between two turns. -/
def Fetched (source : PriceSource) (symbol : String) (window : PriceWindow)
    (fetchedBy : Option TrxPriceCalculator) : Prop :=
  window.pubTrades = [] ∨ ∃ calculator finish, fetchedBy = some calculator ∧
    window = .ofPage (fetchPubTrades source symbol calculator finish) finish

theorem synonymousTrades_le (hpages : source.EndsPages) (synonymous : List (String × ℚ)) :
    ∀ pubTrade ∈ synonymousTrades source calculator mts synonymous, pubTrade.mts ≤ mts := by
  induction synonymous with
  | nil => exact nofun
  | cons head synonymous ih =>
    obtain ⟨symbol, conversion⟩ := head
    simp only [synonymousTrades]
    split
    · exact ih
    · intro pubTrade hmem
      obtain ⟨found, hfound, rfl⟩ := List.mem_map.mp hmem
      exact hpages _ _ found hfound

theorem fetchPubTrades_le (hpages : source.EndsPages) :
    ∀ pubTrade ∈ fetchPubTrades source symbol calculator mts, pubTrade.mts ≤ mts := by
  unfold fetchPubTrades
  dsimp only
  split
  · exact synonymousTrades_le hpages _
  · exact hpages _ _

/-- A fetched window is the page of its fetch. -/
theorem nextWindow_of_fetch (source : PriceSource) (symbol : String)
    (calculator : TrxPriceCalculator)
    (h : (window.pubTrades.isEmpty || window.isOutside mts) = true) :
    nextWindow source symbol calculator mts window =
        .ofPage (fetchPubTrades source symbol calculator mts) mts ∨
      (nextWindow source symbol calculator mts window).pubTrades = [] ∧
        fetchPubTrades source symbol calculator mts = [] := by
  unfold nextWindow fetchPubTrades
  rw [if_pos h]
  dsimp only
  split
  next hempty =>
    cases synonymousOf source symbol calculator with
    | none => exact .inr ⟨rfl, rfl⟩
    | some synonymous => exact .inl rfl
  · exact .inl rfl

theorem isOutside_ofPage {pubTrades : List PubTrade}
    (hle : ∀ pubTrade ∈ pubTrades, pubTrade.mts ≤ mts) :
    (PriceWindow.ofPage pubTrades mts).isOutside mts = false := by
  unfold PriceWindow.isOutside PriceWindow.ofPage
  cases hlast : pubTrades.getLast? with
  | none => simp
  | some pubTrade =>
    have := hle pubTrade (List.mem_of_getLast? hlast)
    simp [this]

/-- The invariant of the windows of a currency. -/
theorem ccyLookUps_windowed (hpages : source.EndsPages) (mtsOf : ℕ → ℕ)
    {fetchedBy : Option TrxPriceCalculator} (hfetched : Fetched source symbol window fetchedBy)
    (calculators : List TrxPriceCalculator) :
    ∀ lookUp ∈ ccyLookUps source mtsOf symbol window fetchedBy calculators,
      lookUp.Windowed source := by
  induction calculators generalizing window fetchedBy with
  | nil => exact nofun
  | cons calculator calculators ih =>
    simp only [ccyLookUps]
    rw [List.forall_mem_cons]
    generalize mtsOf calculator.trx = mts
    cases hneeds : window.pubTrades.isEmpty || window.isOutside mts with
    | true =>
      simp only [↓reduceIte]
      rcases nextWindow_of_fetch source symbol calculator hneeds with hnext | ⟨hnext, hfresh⟩
      · constructor
        · by_cases hempty : fetchPubTrades source symbol calculator mts = []
          · exact .empty (by rw [hnext, hempty]; rfl) hempty
          · refine .page mts le_rfl hnext (by rw [hnext]; exact hempty) ?_
            rw [hnext]
            exact isOutside_ofPage (fetchPubTrades_le hpages)
        · exact ih (.inr ⟨calculator, mts, rfl, hnext⟩)
      · constructor
        · exact .empty hnext hfresh
        · exact ih (.inl hnext)
    | false =>
      have hnext : nextWindow source symbol calculator mts window = window := by
        unfold nextWindow
        rw [hneeds]
        rfl
      rw [Bool.or_eq_false_iff] at hneeds
      obtain ⟨hne, hcovers⟩ := hneeds
      simp only [Bool.false_eq_true, ↓reduceIte, hnext]
      rcases hfetched with hempty | ⟨earlier, finish, rfl, hwindow⟩
      · rw [hempty] at hne
        cases hne
      · constructor
        · have hend : window.pubTradeEnd.any (· < mts) = false :=
            (Bool.or_eq_false_iff.mp hcovers).2
          rw [hwindow] at hend
          have hle : mts ≤ finish := by simpa [PriceWindow.ofPage] using hend
          exact .page finish hle hwindow (by simpa using hne) hcovers
        · exact ih (.inr ⟨earlier, finish, rfl, hwindow⟩)

/-- Every window of a conversion is a page that covers the time of its look-up. -/
theorem priceLookUps_windowed (env : TaxEnv) (hpages : source.EndsPages) (trxs : List ReportTrx) :
    ∀ lookUp ∈ priceLookUps env source trxs, lookUp.Windowed source := by
  intro lookUp hlookUp
  obtain ⟨⟨symbol, calculators⟩, -, hmem⟩ := List.mem_flatMap.mp hlookUp
  exact ccyLookUps_windowed hpages (mtsOf trxs) (.inl rfl) calculators lookUp hmem

/-- What is found is a trade of the list. -/
theorem findPublicTrade_isSome {pubTrades : List PubTrade} (hne : pubTrades ≠ []) (mts : ℕ) :
    ∃ pubTrade ∈ pubTrades, findPublicTrade pubTrades mts = some pubTrade := by
  obtain ⟨i, hsearch, hi⟩ := Bisection.search_lt
    (fun middleIndex => (pubTrades[middleIndex]?.map fun pubTrade =>
      compare pubTrade.mts mts).getD .lt) (List.length_pos_iff.mpr hne)
  refine ⟨pubTrades[i], List.getElem_mem hi, ?_⟩
  unfold findPublicTrade
  rw [hsearch, Option.bind_some, List.getElem?_eq_getElem hi]

/-- A page that covers a time has a trade for it. -/
theorem find?_ofPage {pubTrades : List PubTrade} {finish : ℕ} (hne : pubTrades ≠ [])
    (hcovers : (PriceWindow.ofPage pubTrades finish).isOutside mts = false) :
    (PriceWindow.ofPage pubTrades finish).find? mts = findPublicTrade pubTrades mts := by
  unfold PriceWindow.find?
  rw [hcovers]
  simp [PriceWindow.ofPage, hne]

/-- A look-up finds nothing only where there is nothing to fetch. -/
theorem PriceLookUp.Windowed.found {lookUp : PriceLookUp} (h : lookUp.Windowed source) :
    (lookUp.found = none ∧ lookUp.fresh source = []) ∨
      ∃ pubTrade ∈ lookUp.window.pubTrades, lookUp.found = some pubTrade := by
  unfold PriceLookUp.found
  cases h with
  | empty hwindow hfresh => exact .inl ⟨find?_of_empty hwindow, hfresh⟩
  | page finish hle hwindow hne hcovers =>
    right
    obtain ⟨pubTrade, hmem, hfound⟩ := findPublicTrade_isSome hne lookUp.mts
    refine ⟨pubTrade, hmem, ?_⟩
    rw [hwindow] at hne hcovers hfound ⊢
    have hne' : fetchPubTrades source lookUp.symbol lookUp.fetchedBy finish ≠ [] := hne
    rw [find?_ofPage hne' hcovers]
    exact hfound

end Fetched

end ReportsFramework
