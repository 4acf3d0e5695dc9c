/-
When a price that is taken from a page fetched for an earlier calculator is the one that a
fresh fetch would give.
-/
import ReportsFramework.MissingPrices

namespace ReportsFramework

section Search

/-- The order of the pages. -/
def SortedPubTrades (pubTrades : List PubTrade) : Prop :=
  pubTrades.Pairwise fun newer older => older.mts ≤ newer.mts

/-- How many public trades of a list are after a time. -/
def newerCount (pubTrades : List PubTrade) (mts : ℕ) : ℕ :=
  pubTrades.countP (mts < ·.mts)

variable {pubTrades : List PubTrade} {mts i : ℕ} {pubTrade : PubTrade}

/-- The newer public trades are the first ones. -/
theorem lt_newerCount_iff (hsorted : SortedPubTrades pubTrades) (hi : pubTrades[i]? = some pubTrade)
    (mts : ℕ) : i < newerCount pubTrades mts ↔ mts < pubTrade.mts := by
  unfold newerCount
  rw [Bisection.lt_countP_iff _ hi, decide_eq_true_eq]
  apply hsorted.imp
  intro newer older hle
  simp only [decide_eq_true_eq]
  omega

/-- So are those that are not older. -/
theorem lt_countP_le_iff (hsorted : SortedPubTrades pubTrades) (hi : pubTrades[i]? = some pubTrade)
    (mts : ℕ) : i < pubTrades.countP (mts ≤ ·.mts) ↔ mts ≤ pubTrade.mts := by
  rw [Bisection.lt_countP_iff _ hi, decide_eq_true_eq]
  apply hsorted.imp
  intro newer older hle
  simp only [decide_eq_true_eq]
  omega

/-- The order that `findPublicTrade` bisects by. -/
def searchOrder (pubTrades : List PubTrade) (mts middleIndex : ℕ) : Ordering :=
  (pubTrades[middleIndex]?.map fun pubTrade => compare pubTrade.mts mts).getD .lt

theorem findPublicTrade_eq (pubTrades : List PubTrade) (mts : ℕ) :
    findPublicTrade pubTrades mts =
      (Bisection.search (searchOrder pubTrades mts) pubTrades.length).bind (pubTrades[·]?) := rfl

theorem searchOrder_of_getElem? (hi : pubTrades[i]? = some pubTrade) (mts : ℕ) :
    searchOrder pubTrades mts i = compare pubTrade.mts mts := by
  simp only [searchOrder, hi, Option.map_some, Option.getD_some]

/-- `findPublicTrade` finds a public trade of the very time if there is one. -/
theorem findPublicTrade_of_mem (hsorted : SortedPubTrades pubTrades)
    (hmem : ∃ pubTrade ∈ pubTrades, pubTrade.mts = mts) :
    ∃ pubTrade ∈ pubTrades, findPublicTrade pubTrades mts = some pubTrade ∧ pubTrade.mts = mts := by
  have hget : ∀ i, i < pubTrades.length → ∃ pubTrade, pubTrades[i]? = some pubTrade :=
    fun i hi => ⟨pubTrades[i], List.getElem?_eq_getElem hi⟩
  have hlength : pubTrades.countP (mts ≤ ·.mts) ≤ pubTrades.length := List.countP_le_length
  have hfirst : newerCount pubTrades mts < pubTrades.countP (mts ≤ ·.mts) := by
    obtain ⟨simultaneous, hsimultaneous, hmts⟩ := hmem
    obtain ⟨i, hi⟩ := List.getElem?_of_mem hsimultaneous
    have hnewer := lt_newerCount_iff hsorted hi mts
    have hnotOlder := lt_countP_le_iff hsorted hi mts
    omega
  have hgt : ∀ i, i < newerCount pubTrades mts → searchOrder pubTrades mts i = .gt := by
    intro i hi
    obtain ⟨pubTrade, hpubTrade⟩ := hget i (by omega)
    rw [searchOrder_of_getElem? hpubTrade]
    exact compare_gt_iff_gt.mpr ((lt_newerCount_iff hsorted hpubTrade mts).mp hi)
  have heq : ∀ i, newerCount pubTrades mts ≤ i → i < pubTrades.countP (mts ≤ ·.mts) →
      ∃ pubTrade, pubTrades[i]? = some pubTrade ∧ pubTrade.mts = mts := by
    intro i hi hi'
    obtain ⟨pubTrade, hpubTrade⟩ := hget i (by omega)
    have hnewer := lt_newerCount_iff hsorted hpubTrade mts
    have hnotOlder := lt_countP_le_iff hsorted hpubTrade mts
    exact ⟨pubTrade, hpubTrade, by omega⟩
  have hlt : ∀ i, pubTrades.countP (mts ≤ ·.mts) ≤ i → i < pubTrades.length →
      searchOrder pubTrades mts i = .lt := by
    intro i hi hi'
    obtain ⟨pubTrade, hpubTrade⟩ := hget i hi'
    have hnotOlder := lt_countP_le_iff hsorted hpubTrade mts
    rw [searchOrder_of_getElem? hpubTrade]
    exact compare_lt_iff_lt.mpr (by omega)
  have hhit : ∀ i, newerCount pubTrades mts ≤ i → i < pubTrades.countP (mts ≤ ·.mts) →
      searchOrder pubTrades mts i = .eq := by
    intro i hi hi'
    obtain ⟨pubTrade, hpubTrade, hmts⟩ := heq i hi hi'
    rw [searchOrder_of_getElem? hpubTrade]
    exact compare_eq_iff_eq.mpr hmts
  obtain ⟨i, hsearch, hi, hi'⟩ := Bisection.search_hit hfirst hlength hgt hhit hlt
  obtain ⟨pubTrade, hpubTrade, hmts⟩ := heq i hi hi'
  refine ⟨pubTrade, List.mem_of_getElem? hpubTrade, ?_, hmts⟩
  rw [findPublicTrade_eq, hsearch]
  exact hpubTrade

/-- Without one it ends where the bisection of the page comes to rest. -/
theorem findPublicTrade_of_not_mem (hsorted : SortedPubTrades pubTrades)
    (hnone : ∀ pubTrade ∈ pubTrades, pubTrade.mts ≠ mts) :
    findPublicTrade pubTrades mts =
      (Bisection.rest pubTrades.length (newerCount pubTrades mts)).bind (pubTrades[·]?) := by
  have horder : ∀ i, i < pubTrades.length →
      searchOrder pubTrades mts i = Bisection.gap (newerCount pubTrades mts) i := by
    intro i hi
    have hget : pubTrades[i]? = some pubTrades[i] := List.getElem?_eq_getElem hi
    have hlt := lt_newerCount_iff hsorted hget mts
    have hne := hnone pubTrades[i] (List.getElem_mem hi)
    rw [searchOrder_of_getElem? hget]
    unfold Bisection.gap
    split
    · exact compare_gt_iff_gt.mpr (by omega)
    · exact compare_lt_iff_lt.mpr (by omega)
  rw [findPublicTrade_eq, Bisection.search_congr horder]
  rfl

/-- Of a page up to the time it is one of the latest. -/
theorem findPublicTrade_of_le (hsorted : SortedPubTrades pubTrades)
    (hle : ∀ pubTrade ∈ pubTrades, pubTrade.mts ≤ mts)
    (hnone : ∀ pubTrade ∈ pubTrades, pubTrade.mts ≠ mts) :
    findPublicTrade pubTrades mts = pubTrades.head? := by
  have hzero : newerCount pubTrades mts = 0 := by
    apply List.countP_eq_zero.mpr
    intro pubTrade hmem
    have := hle pubTrade hmem
    simp only [decide_eq_true_eq]
    omega
  rw [findPublicTrade_of_not_mem hsorted hnone, hzero]
  cases pubTrades with
  | nil => rfl
  | cons head rest =>
    rw [Bisection.rest_zero (by simp)]
    rfl

/-- The first trade that is not newer. -/
theorem getElem?_newerCount (hsorted : SortedPubTrades pubTrades) (mts : ℕ) :
    pubTrades[newerCount pubTrades mts]? = pubTrades.find? (·.mts ≤ mts) := by
  cases hget : pubTrades[newerCount pubTrades mts]? with
  | none =>
    symm
    rw [List.find?_eq_none]
    intro pubTrade hmem
    obtain ⟨i, hi⟩ := List.getElem?_of_mem hmem
    have hlt := lt_newerCount_iff hsorted hi mts
    have hlength := List.getElem?_eq_none_iff.mp hget
    obtain ⟨hi', -⟩ := List.getElem?_eq_some_iff.mp hi
    simp only [decide_eq_true_eq]
    omega
  | some pubTrade =>
    symm
    have hnot := lt_newerCount_iff hsorted hget mts
    obtain ⟨hlength, heq⟩ := List.getElem?_eq_some_iff.mp hget
    rw [List.find?_eq_some_iff_getElem]
    refine ⟨by simp only [decide_eq_true_eq]; omega, _, hlength, heq, ?_⟩
    intro i hi
    have hget' : pubTrades[i]? = some pubTrades[i] := List.getElem?_eq_getElem (hi.trans hlength)
    have hlt := (lt_newerCount_iff hsorted hget' mts).mp hi
    simp only [Bool.not_eq_true', decide_eq_false_iff_not]
    omega

end Search

section Histories

/-- The public trades of the pairs, newest first, and how many of them a page has. -/
structure PubTradeHistory where
  trades : String → List PubTrade
  newestFirst : ∀ pair, SortedPubTrades (trades pair)
  limit : String → ℕ → ℕ
  limit_pos : ∀ pair finish, 0 < limit pair finish

/-- The trades of a list up to a time, the newest of them. -/
def page (trades : List PubTrade) (limit finish : ℕ) : List PubTrade :=
  (trades.filter (·.mts ≤ finish)).take limit

def PubTradeHistory.source (history : PubTradeHistory)
    (ccySynonymous : String → Option (List (String × ℚ))) : PriceSource where
  publicTrades pair finish := page (history.trades pair) (history.limit pair finish) finish
  ccySynonymous

variable {trades : List PubTrade} {limit finish mts : ℕ}

theorem page_sortedPubTrades (hsorted : SortedPubTrades trades) :
    SortedPubTrades (page trades limit finish) :=
  (hsorted.filter _).take

theorem page_le : ∀ pubTrade ∈ page trades limit finish, pubTrade.mts ≤ finish := by
  intro pubTrade hmem
  have hmem := List.mem_of_mem_take hmem
  simpa using (List.mem_filter.mp hmem).2

theorem page_eq_nil_iff (hlimit : 0 < limit) :
    page trades limit finish = [] ↔ ∀ pubTrade ∈ trades, finish < pubTrade.mts := by
  unfold page
  rw [List.take_eq_nil_iff, List.filter_eq_nil_iff]
  simp [hlimit.ne']

theorem page_map_convert (conversion : ℚ) :
    (page trades limit finish).map (PubTrade.convert conversion) =
      page (trades.map (PubTrade.convert conversion)) limit finish := by
  unfold page
  rw [List.map_take, List.filter_map]
  rfl

/-- A page and a page up to an earlier time that it reaches have one newest trade there. -/
theorem find?_page {limit' : ℕ} (hlimit' : 0 < limit') (hle : mts ≤ finish)
    {pubTrade : PubTrade}
    (hfind : (page trades limit finish).find? (·.mts ≤ mts) = some pubTrade) :
    (page trades limit' mts).head? = some pubTrade := by
  have hall : (trades.filter (·.mts ≤ finish)).find? (·.mts ≤ mts) = some pubTrade := by
    rw [← List.take_append_drop limit (trades.filter _), List.find?_append]
    rw [page] at hfind
    rw [hfind, Option.some_or]
  have hfilter : (trades.filter (·.mts ≤ finish)).filter (·.mts ≤ mts) =
      trades.filter (·.mts ≤ mts) := by
    rw [List.filter_filter]
    apply List.filter_congr
    intro earlier _
    simp only [← Bool.decide_and, decide_eq_decide]
    omega
  rw [page, List.head?_take, if_neg hlimit'.ne', ← hfilter, List.head?_filter]
  exact hall

/-- Two pages of one list of trades. -/
def PagesOf (later : List PubTrade) (finish : ℕ) (earlier : List PubTrade) (mts : ℕ) : Prop :=
  ∃ trades limit limit', SortedPubTrades trades ∧ 0 < limit' ∧
    later = page trades limit finish ∧ earlier = page trades limit' mts

variable {history : PubTradeHistory} {ccySynonymous : String → Option (List (String × ℚ))}
  {symbol : String} {calculator : TrxPriceCalculator}

theorem source_endsPages : (history.source ccySynonymous).EndsPages :=
  fun _ _ => page_le

theorem sortedPubTrades_convert (hsorted : SortedPubTrades trades) (conversion : ℚ) :
    SortedPubTrades (trades.map (PubTrade.convert conversion)) := by
  rw [SortedPubTrades, List.pairwise_map]
  exact hsorted

/-- A pair that has no trade up to a time has none before it. -/
theorem publicTrades_eq_nil {pair : String} (hle : mts ≤ finish)
    (hnil : (history.source ccySynonymous).publicTrades pair finish = []) :
    (history.source ccySynonymous).publicTrades pair mts = [] := by
  have hafter := (page_eq_nil_iff (history.limit_pos pair finish)).mp hnil
  apply (page_eq_nil_iff (history.limit_pos pair mts)).mpr
  intro pubTrade hmem
  exact hle.trans_lt (hafter pubTrade hmem)

/-- A pair that has a trade at or before a time has a page up to it. -/
theorem publicTrades_ne_nil {pair : String} {pubTrade : PubTrade}
    (hmem : pubTrade ∈ (history.source ccySynonymous).publicTrades pair finish)
    (hmts : pubTrade.mts ≤ mts) :
    (history.source ccySynonymous).publicTrades pair mts ≠ [] := by
  intro hnil
  have hafter := (page_eq_nil_iff (history.limit_pos pair mts)).mp hnil
  have := hafter pubTrade (List.mem_of_mem_filter (List.mem_of_mem_take hmem))
  omega

theorem synonymousTrades_pagesOf (hle : mts ≤ finish) (synonymous : List (String × ℚ))
    (hreach : ∃ pubTrade ∈ synonymousTrades (history.source ccySynonymous) calculator finish
      synonymous, pubTrade.mts ≤ mts) :
    PagesOf (synonymousTrades (history.source ccySynonymous) calculator finish synonymous) finish
      (synonymousTrades (history.source ccySynonymous) calculator mts synonymous) mts := by
  induction synonymous with
  | nil =>
    obtain ⟨pubTrade, hmem, -⟩ := hreach
    cases hmem
  | cons head synonymous ih =>
    obtain ⟨symbol, conversion⟩ := head
    simp only [synonymousTrades] at hreach ⊢
    generalize getCcyPairForConversion symbol calculator = pair at hreach ⊢
    by_cases hnil : (history.source ccySynonymous).publicTrades pair finish = []
    · rw [hnil] at hreach
      rw [hnil, publicTrades_eq_nil hle hnil]
      exact ih hreach
    · rw [if_neg (by simpa using hnil)] at hreach
      obtain ⟨_, hmem, hmts⟩ := hreach
      obtain ⟨pubTrade, hfound, rfl⟩ := List.mem_map.mp hmem
      have hne := publicTrades_ne_nil hfound hmts
      rw [if_neg (by simpa using hnil), if_neg (by simpa using hne)]
      exact ⟨_, _, _, sortedPubTrades_convert (history.newestFirst pair) conversion,
        history.limit_pos pair mts, page_map_convert conversion, page_map_convert conversion⟩

/-- Two fetches of which the later one has a trade at or before the earlier time. -/
theorem fetchPubTrades_pagesOf (hle : mts ≤ finish)
    (hreach : ∃ pubTrade ∈ fetchPubTrades (history.source ccySynonymous) symbol calculator finish,
      pubTrade.mts ≤ mts) :
    PagesOf (fetchPubTrades (history.source ccySynonymous) symbol calculator finish) finish
      (fetchPubTrades (history.source ccySynonymous) symbol calculator mts) mts := by
  unfold fetchPubTrades at hreach ⊢
  dsimp only at hreach ⊢
  generalize getCcyPairForConversion symbol calculator = pair at hreach ⊢
  by_cases hnil : (history.source ccySynonymous).publicTrades pair finish = []
  · rw [hnil] at hreach
    rw [hnil, publicTrades_eq_nil hle hnil]
    exact synonymousTrades_pagesOf hle _ hreach
  · rw [if_neg (by simpa using hnil)] at hreach
    obtain ⟨pubTrade, hmem, hmts⟩ := hreach
    have hne := publicTrades_ne_nil hmem hmts
    rw [if_neg (by simpa using hnil), if_neg (by simpa using hne)]
    exact ⟨_, _, _, history.newestFirst pair, history.limit_pos pair mts, rfl, rfl⟩

/-- A fetch is newest first. -/
theorem fetchPubTrades_sorted :
    SortedPubTrades (fetchPubTrades (history.source ccySynonymous) symbol calculator finish) := by
  by_cases hnil : fetchPubTrades (history.source ccySynonymous) symbol calculator finish = []
  · rw [hnil]
    exact List.Pairwise.nil
  · obtain ⟨pubTrade, hmem⟩ := List.exists_mem_of_ne_nil _ hnil
    obtain ⟨trades, limit, -, hsorted, -, hpage, -⟩ := fetchPubTrades_pagesOf le_rfl
      ⟨pubTrade, hmem, fetchPubTrades_le source_endsPages pubTrade hmem⟩
    rw [hpage]
    exact page_sortedPubTrades hsorted

/-- The newest trade at or before the time is at its place in the later page, and the first of
the earlier one. -/
theorem PagesOf.newest {later earlier : List PubTrade} (hpages : PagesOf later finish earlier mts)
    (hle : mts ≤ finish) (hreach : ∃ pubTrade ∈ later, pubTrade.mts ≤ mts) :
    ∃ newest, later[newerCount later mts]? = some newest ∧ earlier.head? = some newest ∧
      newest.mts ≤ mts ∧ (∀ pubTrade ∈ later, pubTrade.mts ≤ mts → pubTrade.mts ≤ newest.mts) ∧
      ∀ pubTrade ∈ earlier, pubTrade.mts ≤ newest.mts := by
  obtain ⟨trades, limit, limit', hsorted, hlimit', rfl, rfl⟩ := hpages
  have hlater : SortedPubTrades (page trades limit finish) := page_sortedPubTrades hsorted
  have hearlier : SortedPubTrades (page trades limit' mts) := page_sortedPubTrades hsorted
  obtain ⟨newest, hfind⟩ : ∃ newest,
      (page trades limit finish).find? (·.mts ≤ mts) = some newest := by
    rw [← Option.isSome_iff_exists, List.find?_isSome]
    simpa using hreach
  have hhead := find?_page hlimit' hle hfind
  have hget := getElem?_newerCount hlater mts
  rw [hfind] at hget
  refine ⟨newest, hget, hhead, by simpa using List.find?_some hfind, ?_, ?_⟩
  · intro pubTrade hmem hmts
    obtain ⟨i, hi⟩ := List.getElem?_of_mem hmem
    have hnewer := lt_newerCount_iff hlater hi mts
    obtain ⟨hlt, rfl⟩ := List.getElem?_eq_some_iff.mp hi
    obtain ⟨hlt', rfl⟩ := List.getElem?_eq_some_iff.mp hget
    have hplace : newerCount (page trades limit finish) mts ≤ i := by omega
    rcases Nat.eq_or_lt_of_le hplace with heq | hbefore
    · simp only [heq, le_refl]
    · exact List.pairwise_iff_getElem.mp hlater _ _ hlt' hlt hbefore
  · intro pubTrade hmem
    cases hpage : page trades limit' mts with
    | nil =>
      rw [hpage] at hmem
      cases hmem
    | cons head rest =>
      rw [hpage] at hhead hmem hearlier
      obtain rfl : head = newest := Option.some.inj hhead
      rcases List.mem_cons.mp hmem with rfl | hmem
      · exact le_rfl
      · exact (List.pairwise_cons.mp hearlier).1 pubTrade hmem

/-- The list-level refinement: what is found in a later page that comes to rest behind the newer
trades has the price that is found in the earlier one. -/
theorem PagesOf.findPublicTrade {later earlier : List PubTrade}
    (hpages : PagesOf later finish earlier mts) (hle : mts ≤ finish)
    (hreach : ∃ pubTrade ∈ later, pubTrade.mts ≤ mts)
    (huntied : later ≠ earlier → ∀ pubTrade ∈ later, ∀ pubTrade' ∈ earlier,
      pubTrade.mts = mts → pubTrade'.mts = mts → pubTrade.price = pubTrade'.price)
    (hrests : (∀ pubTrade ∈ later, pubTrade.mts ≠ mts) →
      Bisection.rest later.length (newerCount later mts) = some (newerCount later mts)) :
    ∃ found fresh, findPublicTrade later mts = some found ∧
      findPublicTrade earlier mts = some fresh ∧ found.price = fresh.price ∧ found.mts ≤ mts ∧
      ∀ pubTrade ∈ earlier, pubTrade.mts ≤ found.mts := by
  obtain ⟨newest, hget, hhead, hnewest, hlatest, hearliest⟩ := hpages.newest hle hreach
  obtain ⟨trades, limit, limit', hsorted, -, rfl, rfl⟩ := hpages
  have hlater : SortedPubTrades (page trades limit finish) := page_sortedPubTrades hsorted
  have hearlier : SortedPubTrades (page trades limit' mts) := page_sortedPubTrades hsorted
  by_cases hmem : ∃ pubTrade ∈ page trades limit finish, pubTrade.mts = mts
  · obtain ⟨found, hfound, hsearch, hmts⟩ := findPublicTrade_of_mem hlater hmem
    have hmem' : ∃ pubTrade ∈ page trades limit' mts, pubTrade.mts = mts := by
      refine ⟨newest, List.mem_of_mem_head? hhead, ?_⟩
      have := hlatest found hfound hmts.le
      omega
    obtain ⟨fresh, hfresh, hsearch', hmts'⟩ := findPublicTrade_of_mem hearlier hmem'
    refine ⟨found, fresh, hsearch, hsearch', ?_, hmts.le, ?_⟩
    · by_cases hsame : page trades limit finish = page trades limit' mts
      · rw [hsame, hsearch'] at hsearch
        rw [Option.some.inj hsearch]
      · exact huntied hsame found hfound fresh hfresh hmts hmts'
    · intro pubTrade hpubTrade
      rw [hmts]
      exact page_le pubTrade hpubTrade
  · have hnone : ∀ pubTrade ∈ page trades limit finish, pubTrade.mts ≠ mts :=
      fun pubTrade hpubTrade hmts => hmem ⟨pubTrade, hpubTrade, hmts⟩
    have hne := hnone newest (List.mem_of_getElem? hget)
    have hnone' : ∀ pubTrade ∈ page trades limit' mts, pubTrade.mts ≠ mts := by
      intro pubTrade hpubTrade
      have := hearliest pubTrade hpubTrade
      omega
    refine ⟨newest, newest, ?_, ?_, rfl, hnewest, hearliest⟩
    · rw [findPublicTrade_of_not_mem hlater hnone, hrests hnone]
      exact hget
    · rw [findPublicTrade_of_le hearlier page_le hnone']
      exact hhead

end Histories

section Transparency

/-- The look-up with a window that is fetched for it. -/
def PriceLookUp.refetched (source : PriceSource) (lookUp : PriceLookUp) : PriceLookUp :=
  { lookUp with window := .ofPage (lookUp.fresh source) lookUp.mts, fetchedBy := lookUp.calculator }

/-- The price is that of a fresh fetch, and of the latest public trade that one has. -/
structure PriceLookUp.Transparent (source : PriceSource) (lookUp : PriceLookUp) : Prop where
  price : lookUp.found.map (·.price) = (lookUp.refetched source).found.map (·.price)
  latest : ∀ pubTrade, lookUp.found = some pubTrade → pubTrade.mts ≤ lookUp.mts ∧
    ∀ earlier ∈ lookUp.fresh source, earlier.mts ≤ pubTrade.mts

/-- The window was fetched as the look-up would fetch it. -/
def PriceLookUp.SameFetch (source : PriceSource) (lookUp : PriceLookUp) : Prop :=
  ∀ finish, fetchPubTrades source lookUp.symbol lookUp.fetchedBy finish =
    fetchPubTrades source lookUp.symbol lookUp.calculator finish

/-- The window has the page of a fresh fetch, or the public trades of the very time of the
look-up have one price. -/
def PriceLookUp.Untied (source : PriceSource) (lookUp : PriceLookUp) : Prop :=
  lookUp.window.pubTrades ≠ lookUp.fresh source →
    ∀ pubTrade ∈ lookUp.window.pubTrades, ∀ pubTrade' ∈ lookUp.fresh source,
      pubTrade.mts = lookUp.mts → pubTrade'.mts = lookUp.mts → pubTrade.price = pubTrade'.price

/-- How many trades of the window are after the time of the look-up. -/
def PriceLookUp.newer (lookUp : PriceLookUp) : ℕ :=
  newerCount lookUp.window.pubTrades lookUp.mts

/-- A bisection of as many positions as the window has trades, of which as many are before the
target as it has newer ones, comes to rest behind these. -/
def PriceLookUp.Rests (lookUp : PriceLookUp) : Prop :=
  lookUp.window.pubTrades ≠ [] →
    (∀ pubTrade ∈ lookUp.window.pubTrades, pubTrade.mts ≠ lookUp.mts) →
      Bisection.rest lookUp.window.pubTrades.length lookUp.newer = some lookUp.newer

structure PriceLookUp.Fits (source : PriceSource) (lookUp : PriceLookUp) : Prop where
  sameFetch : lookUp.SameFetch source
  untied : lookUp.Untied source
  rests : lookUp.Rests

variable {history : PubTradeHistory} {ccySynonymous : String → Option (List (String × ℚ))}
  {lookUp : PriceLookUp}

/-- What a fresh fetch finds is the latest trade, or one of the very time. -/
theorem refetched_found (hne : lookUp.fresh (history.source ccySynonymous) ≠ []) :
    (lookUp.refetched (history.source ccySynonymous)).found =
      findPublicTrade (lookUp.fresh (history.source ccySynonymous)) lookUp.mts :=
  find?_ofPage hne (isOutside_ofPage (fetchPubTrades_le source_endsPages))

theorem PriceLookUp.Windowed.found_eq {source : PriceSource} (h : lookUp.Windowed source)
    (hne : lookUp.window.pubTrades ≠ []) :
    lookUp.found = findPublicTrade lookUp.window.pubTrades lookUp.mts := by
  cases h with
  | empty hwindow _ => exact absurd hwindow hne
  | page finish hle hwindow _ hcovers =>
    unfold PriceLookUp.found
    rw [hwindow] at hne hcovers ⊢
    exact find?_ofPage hne hcovers

/-- A window that covers a time has a trade at or before it. -/
theorem exists_le_of_covers {pubTrades : List PubTrade} {finish mts : ℕ} (hne : pubTrades ≠ [])
    (hcovers : (PriceWindow.ofPage pubTrades finish).isOutside mts = false) :
    ∃ pubTrade ∈ pubTrades, pubTrade.mts ≤ mts := by
  have hstart := (Bool.or_eq_false_iff.mp hcovers).1
  have hlast := List.getLast?_eq_some_getLast hne
  refine ⟨pubTrades.getLast hne, List.getLast_mem hne, ?_⟩
  simpa [PriceWindow.ofPage, hlast] using hstart

/-- A look-up that fits is transparent. -/
theorem PriceLookUp.Windowed.transparent
    (hwindowed : lookUp.Windowed (history.source ccySynonymous))
    (hfits : lookUp.Fits (history.source ccySynonymous)) :
    lookUp.Transparent (history.source ccySynonymous) := by
  have hfound := hwindowed.found_eq
  cases hwindowed with
  | empty hwindow hfresh =>
    have hnone : lookUp.found = none := find?_of_empty hwindow
    have hnone' : (lookUp.refetched (history.source ccySynonymous)).found = none :=
      find?_of_empty hfresh
    constructor
    · rw [hnone, hnone']
    · rw [hnone]
      exact nofun
  | page finish hle hwindow hne hcovers =>
    have hpage : lookUp.window.pubTrades =
        fetchPubTrades (history.source ccySynonymous) lookUp.symbol lookUp.calculator finish := by
      rw [hwindow]
      exact hfits.sameFetch finish
    have hreach : ∃ pubTrade ∈ lookUp.window.pubTrades, pubTrade.mts ≤ lookUp.mts := by
      rw [hwindow] at hne hcovers ⊢
      exact exists_le_of_covers hne hcovers
    have hpages : PagesOf lookUp.window.pubTrades finish
        (lookUp.fresh (history.source ccySynonymous)) lookUp.mts := by
      rw [hpage] at hreach ⊢
      exact fetchPubTrades_pagesOf hle hreach
    obtain ⟨found, fresh, hsearch, hsearch', hprice, hmts, hlatest⟩ :=
      hpages.findPublicTrade hle hreach hfits.untied (hfits.rests hne)
    have hfresh : lookUp.fresh (history.source ccySynonymous) ≠ [] := by
      intro hnil
      rw [hnil] at hsearch'
      cases hsearch'
    constructor
    · rw [hfound hne, hsearch, refetched_found hfresh, hsearch']
      exact congrArg some hprice
    · intro pubTrade hpubTrade
      rw [hfound hne, hsearch] at hpubTrade
      cases hpubTrade
      exact ⟨hmts, hlatest⟩

/-- A look-up that is transparent has come to rest behind the newer trades. -/
theorem PriceLookUp.Windowed.rests (hwindowed : lookUp.Windowed (history.source ccySynonymous))
    (htransparent : lookUp.Transparent (history.source ccySynonymous)) : lookUp.Rests := by
  intro hne hnone
  have hfound := hwindowed.found_eq hne
  have hsorted : SortedPubTrades lookUp.window.pubTrades := by
    cases hwindowed with
    | empty hwindow _ => exact absurd hwindow hne
    | page finish _ hwindow =>
      rw [hwindow]
      exact fetchPubTrades_sorted
  have hlength : 0 < lookUp.window.pubTrades.length := List.length_pos_iff.mpr hne
  have hnewer : lookUp.newer ≤ lookUp.window.pubTrades.length := List.countP_le_length
  rw [findPublicTrade_of_not_mem hsorted hnone] at hfound
  change lookUp.found = (Bisection.rest _ lookUp.newer).bind _ at hfound
  rcases Bisection.rest_cases hlength hnewer with hrest | ⟨hpos, hrest⟩
  · exact hrest
  · exfalso
    have hlt : lookUp.newer - 1 < lookUp.window.pubTrades.length := by omega
    have hget := List.getElem?_eq_getElem hlt
    have hbefore : lookUp.newer - 1 < lookUp.newer := by omega
    have hafter := (lt_newerCount_iff hsorted hget lookUp.mts).mp hbefore
    rw [hrest] at hfound
    have hlate := (htransparent.latest _ (hfound.trans hget)).1
    omega

end Transparency

section Conversion

variable {source : PriceSource}

/-- A turn reads the price of what is found and nothing else. -/
theorem priceStep_refetched {lookUp : PriceLookUp}
    (hprice : lookUp.found.map (·.price) = (lookUp.refetched source).found.map (·.price))
    (state : ConvState) : priceStep state (lookUp.refetched source) = priceStep state lookUp := by
  unfold priceStep
  generalize hfresh : (lookUp.refetched source).found = fresh at hprice ⊢
  generalize hfound : lookUp.found = found at hprice ⊢
  cases found with
  | none =>
    cases fresh with
    | none => rfl
    | some pubTrade => cases hprice
  | some found =>
    cases fresh with
    | none => cases hprice
    | some pubTrade =>
      have hprice : found.price = pubTrade.price := Option.some.inj hprice
      have htrx : (lookUp.refetched source).calculator = lookUp.calculator := rfl
      rw [htrx]
      cases state.trxs[lookUp.calculator.trx]? with
      | none => rfl
      | some trx => simp only [calcFrom, hprice]

theorem priceAll_refetched {lookUps : List PriceLookUp}
    (htransparent : ∀ lookUp ∈ lookUps, lookUp.Transparent source) (state : ConvState) :
    priceAll state (lookUps.map (·.refetched source)) = priceAll state lookUps := by
  induction lookUps generalizing state with
  | nil => rfl
  | cons lookUp lookUps ih =>
    obtain ⟨hhead, hrest⟩ := List.forall_mem_cons.mp htransparent
    rw [List.map_cons, priceAll_cons, priceAll_cons, priceStep_refetched hhead.price]
    cases priceStep state lookUp with
    | error err => rfl
    | ok state' => exact ih hrest state'

/-- The conversion is one that fetches afresh for every look-up, as far as it comes. -/
def ConvertsAfresh (env : TaxEnv) (source : PriceSource) (trxs : List ReportTrx) : Prop :=
  ∀ ctx, (ctx.pollsLeft ≠ none ∧ (convertCurrencies env source ctx trxs).exit = .interrupted) ∨
    ∃ polls, ConvOutcome
      (priceAll ⟨trxs, fun _ => none, { ctx with pollsLeft := polls }⟩
        ((priceLookUps env source trxs).map (·.refetched source)))
      (convertCurrencies env source ctx trxs).state
      (convertCurrencies env source ctx trxs).exit

/-- A look-up that fits takes the price of the latest public trade, and only one that comes to
rest behind the newer trades can.  If all of them fit, the conversion is one without windows. -/
theorem priceWindows_transparent (history : PubTradeHistory)
    (ccySynonymous : String → Option (List (String × ℚ))) (env : TaxEnv) (trxs : List ReportTrx) :
    (∀ lookUp ∈ priceLookUps env (history.source ccySynonymous) trxs,
      (lookUp.Fits (history.source ccySynonymous) →
        lookUp.Transparent (history.source ccySynonymous)) ∧
      (lookUp.Transparent (history.source ccySynonymous) → lookUp.Rests)) ∧
    ((∀ lookUp ∈ priceLookUps env (history.source ccySynonymous) trxs,
      lookUp.Fits (history.source ccySynonymous)) →
        ConvertsAfresh env (history.source ccySynonymous) trxs) := by
  have hwindowed : ∀ lookUp ∈ priceLookUps env (history.source ccySynonymous) trxs,
      lookUp.Windowed (history.source ccySynonymous) :=
    priceLookUps_windowed env source_endsPages trxs
  constructor
  · intro lookUp hlookUp
    exact ⟨(hwindowed lookUp hlookUp).transparent, (hwindowed lookUp hlookUp).rests⟩
  · intro hfits ctx
    have htransparent : ∀ lookUp ∈ priceLookUps env (history.source ccySynonymous) trxs,
        lookUp.Transparent (history.source ccySynonymous) :=
      fun lookUp hlookUp => (hwindowed lookUp hlookUp).transparent (hfits lookUp hlookUp)
    simp only [priceAll_refetched htransparent]
    exact convertCurrencies_cases env (history.source ccySynonymous) ctx trxs

end Conversion

namespace PriceWindowWitness

def usdEnv : TaxEnv := ⟨["USD"], fun _ => ("", "")⟩

/-- A margin funding payment in bitcoins without a stored value. -/
def paymentRow (mtsUpdated : ℕ) : MovementRow where
  _id := mtsUpdated
  currency := "BTC"
  mtsUpdated := some mtsUpdated
  amount := some 1
  fees := none
  exactUsdValue := none
  isLedgers := true
  _isAirdropOnWallet := false
  _isMarginFundingPayment := true
  _isAffiliateRebate := false
  _isStakingPayments := false

def trxs : List ReportTrx := [(paymentRow 40).trx 40 1, (paymentRow 35).trx 35 1]

/-- Three public trades, none of them at 35. -/
def history : PubTradeHistory where
  trades := fun pair => if pair = "tBTCUSD" then
    [⟨40, some 400⟩, ⟨30, some 300⟩, ⟨10, some 100⟩] else []
  newestFirst := by
    intro pair
    split
    · simp [SortedPubTrades]
    · exact List.Pairwise.nil
  limit := fun _ _ => 10000
  limit_pos := fun _ _ => by omega

def source : PriceSource := history.source fun _ => none

/-- The payment at 35 has the price of the trade at 40. -/
theorem price_of_newer_trade :
    ((convertCurrencies usdEnv source {} trxs).exit = .completed ∧
      (convertCurrencies usdEnv source {} trxs).state.trxs.map (·.firstSymbPriceUsd) =
        [some 400, some 400]) ∧
    ((priceLookUps usdEnv source trxs).map fun lookUp => (lookUp.refetched source).found) =
      [some ⟨40, some 400⟩, some ⟨30, some 300⟩] ∧
    ¬ ∀ lookUp ∈ priceLookUps usdEnv source trxs, lookUp.Transparent source := by
  have hfound : (priceLookUps usdEnv source trxs).map (fun lookUp => lookUp.found.map (·.price)) =
      [some (some 400), some (some 400)] := by decide +kernel
  have hfresh : (priceLookUps usdEnv source trxs).map
      (fun lookUp => (lookUp.refetched source).found.map (·.price)) =
        [some (some 400), some (some 300)] := by decide +kernel
  refine ⟨by decide +kernel, by decide +kernel, fun htransparent => ?_⟩
  have hprices := List.map_congr_left fun lookUp hlookUp => (htransparent lookUp hlookUp).price
  rw [hfound, hfresh] at hprices
  revert hprices
  decide +kernel

end PriceWindowWitness

end ReportsFramework
