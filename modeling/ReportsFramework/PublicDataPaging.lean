/-
The records that a client obtains of `getPublicData`: each symbol is served by the database or by
the API, and no record is lost exactly if the pages leave none out that is newer than the common
cut.
-/
import ReportsFramework.PublicData

namespace ReportsFramework

open MergedPages

namespace PublicCollsConfAccessors

/-! ### What is configured -/

section Configured

variable {confName : ConfName} (params : PublicParams confName) (user_id : ℤ) (table : ConfTable)

/-- A configuration is stored for the symbol and the time frame. -/
def IsConfigured (symbol : String) : Prop :=
  ∃ e ∈ table.rows, isOf confName user_id e.2 = true ∧ e.2.symbol = symbol ∧
    ∀ t ∈ params.timeframe?, e.2.timeframe = some t

variable {params user_id table}

theorem timeframe?_ne_empty {t : String} (ht : t ∈ params.timeframe?) : t ≠ "" := by
  unfold PublicParams.timeframe? at ht
  split_ifs at ht with hcandles
  · obtain ⟨t', ht', hne⟩ := params.oneTimeframe hcandles
    rw [ht', Option.mem_def, Option.some.injEq] at ht
    rw [← ht]
    exact hne
  · simp at ht

theorem timeframe_of_mem_requestedConfs {conf : Conf}
    (hconf : conf ∈ requestedConfs params user_id table) :
    conf.timeframe = params.timeframe? := by
  obtain ⟨e, -, -, -, htimeframe, rfl⟩ := mem_getPublicCollsConf.mp hconf
  unfold pickConf
  cases hcandles : isCandlesConfs confName with
  | false => simp [PublicParams.timeframe?, hcandles]
  | true =>
      obtain ⟨t, ht, hne⟩ := params.oneTimeframe hcandles
      have hmem : t ∈ params.timeframe? := by simp [PublicParams.timeframe?, hcandles, ht]
      rcases htimeframe t hmem with hempty | hrow
      · exact absurd hempty hne
      · simp [PublicParams.timeframe?, hcandles, ht, hrow]

theorem exists_requestedConf_iff {symbol : String} (hsymbol : symbol ∈ params.symbol) :
    (∃ conf ∈ requestedConfs params user_id table, conf.symbol = symbol) ↔
      IsConfigured params user_id table symbol := by
  constructor
  · rintro ⟨conf, hconf, rfl⟩
    obtain ⟨e, hmem, hof, -, htimeframe, rfl⟩ := mem_getPublicCollsConf.mp hconf
    refine ⟨e, hmem, hof, rfl, ?_⟩
    intro t ht
    rcases htimeframe t ht with hempty | hrow
    · exact absurd hempty (timeframe?_ne_empty ht)
    · exact hrow
  · rintro ⟨e, hmem, hof, rfl, htimeframe⟩
    refine ⟨_, mem_getPublicCollsConf.mpr
      ⟨e, hmem, hof, .inr hsymbol, fun t ht => .inr (htimeframe t ht), rfl⟩, rfl⟩

end Configured

/-! ### What is asked for -/

section AskedFor

variable {confName : ConfName} (params : PublicParams confName)

theorem isNone_find?_symbol {confs : List Conf} {symb : String} :
    (confs.find? fun conf => conf.symbol = symb).isNone = true ↔
      ∀ conf ∈ confs, conf.symbol ≠ symb := by
  simp [List.find?_eq_none]

theorem isNone_find?_timeframe {confs : List Conf} {symb t : String}
    (hconfs : ∀ conf ∈ confs, conf.timeframe = some t) :
    (confs.find? fun conf => conf.symbol = symb ∧ conf.timeframe = some t).isNone = true ↔
      ∀ conf ∈ confs, conf.symbol ≠ symb := by
  rw [Option.isNone_iff_eq_none, List.find?_eq_none]
  constructor
  · intro hnone conf hconf hsymbol
    exact hnone conf hconf (decide_eq_true ⟨hsymbol, hconfs conf hconf⟩)
  · intro hnone conf hconf hfound
    exact hnone conf hconf (of_decide_eq_true hfound).1

theorem filter_timeframe? :
    (params.timeframe?.toList.filter fun timeframe => timeframe ≠ "") =
      params.timeframe?.toList := by
  apply List.filter_eq_self.mpr
  intro t ht
  exact decide_eq_true (timeframe?_ne_empty (Option.mem_toList.mp ht))

/-- What the API is asked with for one symbol. -/
theorem args_of_symbol {confs : List Conf}
    (hconfs : ∀ conf ∈ confs, conf.timeframe = params.timeframe?) (symb : String) :
    (if (confs.find? fun conf => conf.symbol = symb).isNone &&
        params.timeframe?.toList.isEmpty then
      [params.args (.one symb) none]
    else
      (params.timeframe?.toList.filter fun tFrame =>
        (confs.find? fun conf => conf.symbol = symb ∧ conf.timeframe = some tFrame).isNone).map
          fun tFrame => params.args (.one symb) (some tFrame)) =
    if ∀ conf ∈ confs, conf.symbol ≠ symb then [params.args (.one symb) params.timeframe?]
    else [] := by
  cases htimeframe : params.timeframe? with
  | none =>
      simp only [Option.toList_none, List.isEmpty_nil, Bool.and_true, List.filter_nil, List.map_nil,
        isNone_find?_symbol]
  | some t =>
      have hconfs' : ∀ conf ∈ confs, conf.timeframe = some t := by
        intro conf hconf
        rw [hconfs conf hconf, htimeframe]
      simp only [Option.toList_some, List.isEmpty_cons, Bool.and_false, Bool.false_eq_true,
        if_false, List.filter_cons, List.filter_nil, isNone_find?_timeframe hconfs']
      split_ifs <;> rfl

/-- A symbol that no configuration has. -/
def isNotSynced (confs : List Conf) (symb : String) : Bool :=
  symb ≠ "" && confs.all fun conf => conf.symbol ≠ symb

theorem isNotSynced_iff {confs : List Conf} {symb : String} :
    isNotSynced confs symb = true ↔ symb ≠ "" ∧ ∀ conf ∈ confs, conf.symbol ≠ symb := by
  simp [isNotSynced]

/-- The symbols that the API is asked for are those that no configuration has. -/
theorem getArgsArrForNotSyncedParams_eq {confs : List Conf}
    (hconfs : ∀ conf ∈ confs, conf.timeframe = params.timeframe?) :
    getArgsArrForNotSyncedParams params confs =
      (params.symbol.filter (isNotSynced confs)).map
        fun symb => params.args (.one symb) params.timeframe? := by
  unfold getArgsArrForNotSyncedParams
  dsimp only
  rw [filter_timeframe?]
  simp only [args_of_symbol params hconfs]
  induction params.symbol with
  | nil => rfl
  | cons symb symbols ih =>
      by_cases hempty : symb = ""
      · have hnot : ¬ isNotSynced confs symb = true := fun h => (isNotSynced_iff.mp h).1 hempty
        rw [List.filter_cons_of_neg (by simpa using hempty), ih, List.filter_cons_of_neg hnot]
      · rw [List.filter_cons_of_pos (by simpa using hempty), List.flatMap_cons, ih]
        by_cases hnew : ∀ conf ∈ confs, conf.symbol ≠ symb
        · rw [if_pos hnew, List.filter_cons_of_pos (isNotSynced_iff.mpr ⟨hempty, hnew⟩)]
          rfl
        · have hnot : ¬ isNotSynced confs symb = true := fun h => hnew (isNotSynced_iff.mp h).2
          rw [if_neg hnew, List.filter_cons_of_neg hnot]
          rfl

theorem timeframe_getArgs {confs : List Conf}
    (hconfs : ∀ conf ∈ confs, conf.timeframe = params.timeframe?) :
    (getArgs params confs).timeframe = params.timeframe? := by
  unfold getArgs
  dsimp only
  split_ifs
  · rfl
  · cases confs with
    | nil => rfl
    | cons conf confs => exact hconfs conf List.mem_cons_self
  · rfl

theorem symbol_getArgs (confs : List Conf) :
    (getArgs params confs).symbol = .many (getSymbol confs) := by
  unfold getArgs
  dsimp only
  split_ifs <;> rfl

end AskedFor

/-! ### Which source serves a symbol -/

section Served

variable {confName : ConfName} (params : PublicParams confName) (user_id : ℤ) (table : ConfTable)

/-- Each requested symbol is asked of the database if it is configured there, and of the API if it
is not, with the requested time frame. -/
structure ServedOnce : Prop where
  db : ∀ symbol ∈ params.symbol, symbol ≠ "" →
    ((∃ args, Request.db args ∈ requests params (requestedConfs params user_id table) ∧
      symbol ∈ args.symbol.list) ↔ IsConfigured params user_id table symbol)
  api : ∀ symbol ∈ params.symbol, symbol ≠ "" →
    ((∃ args, Request.api args ∈ requests params (requestedConfs params user_id table) ∧
      symbol ∈ args.symbol.list) ↔ ¬ IsConfigured params user_id table symbol)
  timeframe : ∀ request ∈ requests params (requestedConfs params user_id table),
    request.args.timeframe = params.timeframe?

variable {params user_id table}

theorem requests_of_nil (hconfs : requestedConfs params user_id table = []) :
    requests params (requestedConfs params user_id table) =
      [.api (params.args (.many params.symbol) params.timeframe?)] := by
  rw [hconfs]
  rfl

theorem requests_of_ne_nil (hconfs : requestedConfs params user_id table ≠ []) :
    requests params (requestedConfs params user_id table) =
      .db (getArgs params (requestedConfs params user_id table)) ::
        ((params.symbol.filter (isNotSynced (requestedConfs params user_id table))).map
          fun symb => params.args (.one symb) params.timeframe?).map .api := by
  unfold requests
  rw [if_neg (by simpa using hconfs), getArgsArrForNotSyncedParams_eq params fun conf hconf =>
    timeframe_of_mem_requestedConfs hconf]

theorem mem_requests (hconfs : requestedConfs params user_id table ≠ []) {request : Request} :
    request ∈ requests params (requestedConfs params user_id table) ↔
      request = .db (getArgs params (requestedConfs params user_id table)) ∨
        ∃ symb ∈ params.symbol, isNotSynced (requestedConfs params user_id table) symb = true ∧
          request = .api (params.args (.one symb) params.timeframe?) := by
  rw [requests_of_ne_nil hconfs, List.mem_cons, List.map_map, List.mem_map]
  refine or_congr_right ?_
  constructor
  · rintro ⟨symb, hsymb, rfl⟩
    obtain ⟨hmem, hnot⟩ := List.mem_filter.mp hsymb
    exact ⟨symb, hmem, hnot, rfl⟩
  · rintro ⟨symb, hmem, hnot, rfl⟩
    exact ⟨symb, List.mem_filter.mpr ⟨hmem, hnot⟩, rfl⟩

theorem servedOnce : ServedOnce params user_id table := by
  by_cases hconfs : requestedConfs params user_id table = []
  · have hnone {symbol : String} (hsymbol : symbol ∈ params.symbol) :
        ¬ IsConfigured params user_id table symbol := by
      rw [← exists_requestedConf_iff hsymbol, hconfs]
      simp
    constructor
    · intro symbol hsymbol _
      simp [requests_of_nil hconfs, hnone hsymbol]
    · intro symbol hsymbol _
      simp [requests_of_nil hconfs, hnone hsymbol, PublicParams.args, SymbolParam.list, hsymbol]
    · intro request hrequest
      rw [requests_of_nil hconfs, List.mem_singleton] at hrequest
      rw [hrequest]
      rfl
  · constructor
    · intro symbol hsymbol _
      rw [← exists_requestedConf_iff hsymbol]
      constructor
      · rintro ⟨args, hargs, hmem⟩
        rcases (mem_requests hconfs).mp hargs with hdb | ⟨_, _, _, hapi⟩
        · rw [Request.db.inj hdb, symbol_getArgs] at hmem
          exact List.mem_map.mp hmem
        · cases hapi
      · rintro ⟨conf, hconf, rfl⟩
        refine ⟨_, (mem_requests hconfs).mpr (.inl rfl), ?_⟩
        rw [symbol_getArgs]
        exact List.mem_map_of_mem hconf
    · intro symbol hsymbol hne
      rw [← exists_requestedConf_iff hsymbol]
      constructor
      · rintro ⟨args, hargs, hmem⟩ ⟨conf, hconf, hsame⟩
        rcases (mem_requests hconfs).mp hargs with hdb | ⟨symb, _, hnot, hapi⟩
        · cases hdb
        · rw [Request.api.inj hapi] at hmem
          have hsymb : symbol = symb := List.mem_singleton.mp hmem
          exact (isNotSynced_iff.mp hnot).2 conf hconf (hsame.trans hsymb)
      · intro hnone
        have hnot : isNotSynced (requestedConfs params user_id table) symbol = true :=
          isNotSynced_iff.mpr ⟨hne, fun conf hconf hsame => hnone ⟨conf, hconf, hsame⟩⟩
        exact ⟨_, (mem_requests hconfs).mpr (.inr ⟨symbol, hsymbol, hnot, rfl⟩),
          List.mem_singleton_self symbol⟩
    · intro request hrequest
      rcases (mem_requests hconfs).mp hrequest with rfl | ⟨_, _, _, rfl⟩
      · exact timeframe_getArgs params fun conf hconf => timeframe_of_mem_requestedConfs hconf
      · rfl

end Served

/-! ### What the client obtains -/

namespace Sources

variable {ρ : Type*} (sources : Sources ρ) {confName : ConfName}
  {params : PublicParams confName} {user_id : ℤ} {table : ConfTable}

theorem symbolOf_mem {request : Request} {r : ρ} (hr : r ∈ (sources.source request).records) :
    sources.symbolOf r ∈ request.args.symbol.list := by
  cases request with
  | db args => exact sources.db_symbol args r hr
  | api args => exact sources.api_symbol args r hr

/-- Different requests are for different symbols. -/
theorem disjoint_requests (hconfs : requestedConfs params user_id table ≠ []) :
    ∀ request ∈ requests params (requestedConfs params user_id table),
      ∀ request' ∈ requests params (requestedConfs params user_id table), request ≠ request' →
        ∀ r ∈ (sources.source request).records, r ∉ (sources.source request').records := by
  intro request hrequest request' hrequest' hne r hr hr'
  have hsymbol := sources.symbolOf_mem hr
  have hsymbol' := sources.symbolOf_mem hr'
  have hdb {symb : String} (hnot : isNotSynced (requestedConfs params user_id table) symb = true) :
      symb ∉ (getArgs params (requestedConfs params user_id table)).symbol.list := by
    rw [symbol_getArgs]
    intro hmem
    obtain ⟨conf, hconf, hsame⟩ := List.mem_map.mp hmem
    exact (isNotSynced_iff.mp hnot).2 conf hconf hsame
  rcases (mem_requests hconfs).mp hrequest with rfl | ⟨symb, -, hnot, rfl⟩
  · rcases (mem_requests hconfs).mp hrequest' with rfl | ⟨symb', -, hnot', rfl⟩
    · exact hne rfl
    · rw [List.mem_singleton.mp hsymbol'] at hsymbol
      exact hdb hnot' hsymbol
  · rcases (mem_requests hconfs).mp hrequest' with rfl | ⟨symb', -, hnot', rfl⟩
    · rw [List.mem_singleton.mp hsymbol] at hsymbol'
      exact hdb hnot hsymbol'
    · have hsame : symb = symb' :=
        (List.mem_singleton.mp hsymbol).symm.trans (List.mem_singleton.mp hsymbol')
      rw [hsame] at hne
      exact hne rfl

theorem newestFirst_latestFirst {date : ρ → ℤ} (records : List ρ) :
    Windows.NewestFirst date (latestFirst (fun r r' => date r ≤ date r') records) := by
  have htotal : Std.Total fun r r' : ρ => date r ≤ date r' :=
    ⟨fun r r' => Int.le_total (date r) (date r')⟩
  have htrans : IsTrans ρ fun r r' => date r ≤ date r' := ⟨fun _ _ _ => Int.le_trans⟩
  exact pairwise_latestFirst _ records

variable {prepareResponse : List ρ → ℕ → Bool → Bool → Answer ρ}

/-- The answer is the cut of all that the sources return. -/
theorem isCut_answer (hprepare : ∀ records limit, 0 < limit → IsCut sources.date limit records
      (prepareResponse records limit params.notThrowError params.notCheckNextPage))
    (hconfs : requestedConfs params user_id table ≠ []) (e : ℤ) :
    IsCut sources.date params.limitOrDefault
      (returned ((requests params (requestedConfs params user_id table)).map sources.source) e)
      (sources.answer prepareResponse params user_id table e) := by
  have hmerged : returned
      ((requests params (requestedConfs params user_id table)).map sources.source) e =
      ((getArgsArrForNotSyncedParams params (requestedConfs params user_id table)).map fun args =>
        (sources.api args).answer e).foldl (fun accum curr => accum ++ curr.res)
          ((sources.db (getArgs params (requestedConfs params user_id table))).page e) := by
    rw [List.foldl_append_eq_append, List.map_map]
    unfold returned requests
    rw [if_neg (by simpa using hconfs), List.map_cons, List.flatMap_cons, List.map_map,
      List.flatMap_map]
    rfl
  unfold answer getPublicData
  dsimp only
  rw [if_neg (by simpa using hconfs), ← hmerged]
  have hperm : (latestFirst (fun r r' => sources.date r ≤ sources.date r')
      (returned ((requests params (requestedConfs params user_id table)).map sources.source)
        e)).Perm _ := List.perm_insertionSort _ _
  split_ifs
  · apply IsCut.congr _ hperm
    exact IsCut.of_take (newestFirst_latestFirst _) (hprepare _ _ params.limitOrDefault_pos)
  · exact (hprepare _ _ params.limitOrDefault_pos).congr hperm

/-- A client that follows the next page obtains the records of all sources up to its end, each
once. -/
def Complete (prepareResponse : List ρ → ℕ → Bool → Bool → Answer ρ)
    (params : PublicParams confName) (user_id : ℤ) (table : ConfTable) (e : ℤ) : Prop :=
  ∃ got, Obtains sources.date (sources.answer prepareResponse params user_id table) e got ∧
    got.Perm
      (unionOf sources.source (requests params (requestedConfs params user_id table)) e)

/-- Where nothing is configured, the API answers alone. -/
theorem complete_of_nil (hconfs : requestedConfs params user_id table = []) (e : ℤ) :
    sources.Complete prepareResponse params user_id table e := by
  have hanswer : sources.answer prepareResponse params user_id table =
      (sources.api (params.args (.many params.symbol) params.timeframe?)).answer := by
    funext e'
    unfold answer getPublicData
    dsimp only
    rw [hconfs]
    rfl
  obtain ⟨got, hobtains, hgot⟩ := exists_obtains_of_serves (e := e) fun e' _ =>
    (sources.api (params.args (.many params.symbol) params.timeframe?)).serves e'
  refine ⟨got, ?_, ?_⟩
  · rw [hanswer]
    exact hobtains
  · rw [requests_of_nil hconfs]
    simpa [unionOf, source, Source.upTo] using hgot

/-- Each symbol is served by one source, and a client obtains all records of them, each once,
exactly if nothing requested is configured, or a symbol that the API is asked for twice has no
records and no page leaves out a record that is newer than what the limit cuts. -/
theorem getPublicData_complete_iff
    (prepareResponse : List ρ → ℕ → Bool → Bool → Answer ρ) (params : PublicParams confName)
    (user_id : ℤ) (table : ConfTable) (e : ℤ)
    (hprepare : ∀ records limit, 0 < limit → IsCut sources.date limit records
      (prepareResponse records limit params.notThrowError params.notCheckNextPage)) :
    ServedOnce params user_id table ∧ sources.Complete prepareResponse params user_id table e ↔
      requestedConfs params user_id table = [] ∨
        (∀ request, List.Duplicate request (requests params (requestedConfs params user_id table)) →
          (sources.source request).upTo e = []) ∧
        ∀ e', Asked (sources.answer prepareResponse params user_id table) e e' →
          Covers ((requests params (requestedConfs params user_id table)).map sources.source)
            params.limitOrDefault e' := by
  rw [and_iff_right servedOnce]
  by_cases hconfs : requestedConfs params user_id table = []
  · simp only [hconfs, true_or, iff_true]
    exact sources.complete_of_nil hconfs e
  · rw [or_iff_right hconfs]
    exact obtains_unionOf_iff sources.source (sources.disjoint_requests hconfs)
      params.limitOrDefault_pos (sources.isCut_answer hprepare hconfs) e

end Sources

namespace PagingWitness

/-- A public trade, of a symbol and a time. -/
abbrev Trade := String × ℤ

def trades : List Trade :=
  [("tBTCUSD", 20), ("tETHUSD", 10), ("tETHUSD", 9), ("tETHUSD", 8), ("tBTCUSD", 5),
    ("tBTCUSD", 4)]

theorem trades_pairwise : trades.Pairwise fun r r' => r'.2 < r.2 := by decide

def ofSymbols (symbols : List String) : List Trade :=
  trades.filter fun r => symbols.contains r.1

theorem mem_ofSymbols {symbols : List String} {r : Trade} (hr : r ∈ ofSymbols symbols) :
    r.1 ∈ symbols := by
  simpa using (List.mem_filter.mp hr).2

/-- The trades with pages of three in the database, and of a size in the API. -/
def sources (size : ℕ) (hsize : 0 < size) : Sources Trade where
  date := Prod.snd
  symbolOf := Prod.fst
  db args := (PagedSource.ofList Prod.snd (ofSymbols args.symbol.list)
    (trades_pairwise.filter _) 3 (by decide)).toSource
  api args := PagedSource.ofList Prod.snd (ofSymbols args.symbol.list)
    (trades_pairwise.filter _) size hsize
  db_symbol _ _ hr := mem_ofSymbols hr
  api_symbol _ _ hr := mem_ofSymbols hr

def conf : ConfRow where
  confName := .publicTradesConf
  symbol := "tBTCUSD"
  start := 0
  timeframe := none
  user_id := 1

/-- The first symbol is configured. -/
def table : ConfTable where
  rows := [(1, conf)]
  lastId := 1
  ascending := List.pairwise_singleton _ _
  bounded := by simp
  unique := List.pairwise_singleton _ _

def params : PublicParams .publicTradesConf where
  symbol := ["tBTCUSD", "tETHUSD"]
  timeframe := none
  start := none
  limit := some 3
  notThrowError := false
  notCheckNextPage := false
  limit_pos l hl := by
    rw [← Option.some.inj hl]
    decide
  oneTimeframe := by decide

/-- The records sorted and cut. -/
def prepareResponse (records : List Trade) (limit : ℕ) (_notThrowError _notCheckNextPage : Bool) :
    Answer Trade where
  res := (latestFirst (fun r r' => r.2 ≤ r'.2) records).take limit
  nextPage := if limit ≤ (latestFirst (fun r r' => r.2 ≤ r'.2) records).length then
    ((latestFirst (fun r r' => r.2 ≤ r'.2) records).take limit).getLast?.map Prod.snd else none

theorem isCut_prepareResponse (records : List Trade) (limit : ℕ) (a b : Bool) :
    IsCut Prod.snd limit records (prepareResponse records limit a b) :=
  ⟨_, List.perm_insertionSort _ _, Sources.newestFirst_latestFirst records, rfl, rfl⟩

theorem asked_full_pages {e : ℤ}
    (hasked : Asked ((sources 3 (by decide)).answer prepareResponse params 1 table) 100 e) :
    e = 100 ∨ e = 9 ∨ e = 5 := by
  induction hasked with
  | first => exact .inl rfl
  | next _ hnext ih =>
      rcases ih with rfl | rfl | rfl
      · have hanswer :
            ((sources 3 (by decide)).answer prepareResponse params 1 table 100).nextPage =
              some 9 := by decide +kernel
        rw [hanswer] at hnext
        exact .inr (.inl (Option.some.inj hnext).symm)
      · have hanswer : ((sources 3 (by decide)).answer prepareResponse params 1 table 9).nextPage =
            some 5 := by decide +kernel
        rw [hanswer] at hnext
        exact .inr (.inr (Option.some.inj hnext).symm)
      · have hanswer : ((sources 3 (by decide)).answer prepareResponse params 1 table 5).nextPage =
            none := by decide +kernel
        rw [hanswer] at hnext
        cases hnext

theorem covers_full_pages (e : ℤ) (he : e = 100 ∨ e = 9 ∨ e = 5) :
    Covers ((requests params (requestedConfs params 1 table)).map
      (sources 3 (by decide)).source) params.limitOrDefault e := by
  rcases he with rfl | rfl | rfl
  · exact ⟨by decide +kernel, by decide +kernel⟩
  · exact ⟨by decide +kernel, by decide +kernel⟩
  · exact ⟨by decide +kernel, by decide +kernel⟩

/-- With full pages of the API the client obtains all trades. -/
theorem complete_of_full_pages :
    ServedOnce params 1 table ∧
      (sources 3 (by decide)).Complete prepareResponse params 1 table 100 := by
  apply ((sources 3 (by decide)).getPublicData_complete_iff prepareResponse params 1 table 100
    fun records limit _ => isCut_prepareResponse records limit _ _).mpr
  refine .inr ⟨?_, fun e hasked => covers_full_pages e (asked_full_pages hasked)⟩
  intro request hrequest
  have hnodup : (requests params (requestedConfs params 1 table)).Nodup := by decide +kernel
  exact absurd hnodup hrequest.not_nodup

/-- The API returns its trades one by one, each with a next page.  The page of all is cut at the
time 5, so that the trades at 9 and 8 are never asked for. -/
theorem not_complete :
    ¬ (ServedOnce params 1 table ∧
      (sources 1 (by decide)).Complete prepareResponse params 1 table 100) := by
  rintro ⟨-, hcomplete⟩
  have hconfs : requestedConfs params 1 table ≠ [] := by decide +kernel
  obtain ⟨-, hcovers⟩ := (obtains_unionOf_iff _
    ((sources 1 (by decide)).disjoint_requests hconfs) params.limitOrDefault_pos
    ((sources 1 (by decide)).isCut_answer (fun records limit _ =>
      isCut_prepareResponse records limit _ _) hconfs) 100).mp hcomplete
  have hleft := (hcovers 100 .first).leftOut
    ((sources 1 (by decide)).source (.api (params.args (.one "tETHUSD") none)))
    (List.mem_map_of_mem (by decide +kernel)) ("tETHUSD", 9) (by decide +kernel)
    (by decide +kernel)
  revert hleft
  decide +kernel

end PagingWitness

end PublicCollsConfAccessors

end ReportsFramework
