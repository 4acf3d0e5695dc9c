/-
The balance of a frame is the one of the latest rows at its end: what the fold carries
from frame to frame is the latest row of every wallet and currency.
-/
import Mathlib.Algebra.BigOperators.Group.Finset.Basic
import Mathlib.Algebra.BigOperators.Ring.Finset
import Mathlib.Algebra.Order.Ring.Rat
import Mathlib.Tactic.Ring
import ReportsFramework.BalanceHistory
import ReportsFramework.FrameAlignment

namespace ReportsFramework

section Weigh

variable (price : String → ℚ)

/-- The sum of balances at prices. -/
def weigh (balances : Balances) : ℚ :=
  (balances.map fun entry => entry.2 * price entry.1).sum

theorem weigh_addTo (symb : String) (balance : ℚ) (accum : Balances) :
    weigh price (addTo symb balance accum) = weigh price accum + balance * price symb := by
  induction accum with
  | nil => simp [weigh, addTo]
  | cons entry rest ih =>
    obtain ⟨symb', sum⟩ := entry
    unfold weigh at ih
    by_cases hsymb : symb' = symb
    · simp only [weigh, addTo, hsymb, if_true, List.map_cons, List.sum_cons]
      ring
    · simp only [weigh, addTo, hsymb, if_false, List.map_cons, List.sum_cons, ih]
      ring

theorem weigh_groupWalletsByCurrency (wallets : List WalletRow) :
    weigh price (groupWalletsByCurrency wallets) =
      (wallets.map fun wallet => wallet.balance * price wallet.currency).sum := by
  have hfold : ∀ (wallets : List WalletRow) (accum : Balances),
      weigh price (wallets.foldl
        (fun accum wallet => addTo wallet.currency wallet.balance accum) accum) =
        weigh price accum +
          (wallets.map fun wallet => wallet.balance * price wallet.currency).sum := by
    intro wallets
    induction wallets with
    | nil => simp
    | cons wallet rest ih =>
      intro accum
      rw [List.foldl_cons, ih, weigh_addTo, List.map_cons, List.sum_cons]
      ring
  have := hfold wallets []
  rw [groupWalletsByCurrency, this]
  simp [weigh]

end Weigh

/-- The balance a list of wallets has for a wallet type and a currency. -/
def balanceOf (wallets : List WalletRow) (type currency : String) : ℚ :=
  (wallets.find? fun wallet => wallet.type = type ∧ wallet.currency = currency).elim 0
    WalletRow.balance

/-- No wallet type and currency twice. -/
def UniquePairs (wallets : List WalletRow) : Prop :=
  wallets.Pairwise fun wallet wallet' =>
    ¬ (wallet.type = wallet'.type ∧ wallet.currency = wallet'.currency)

theorem balanceOf_cons {wallet : WalletRow} {rest : List WalletRow}
    (h : ∀ wallet' ∈ rest, ¬ (wallet.type = wallet'.type ∧ wallet.currency = wallet'.currency))
    (type currency : String) :
    balanceOf (wallet :: rest) type currency =
      (if wallet.type = type ∧ wallet.currency = currency then wallet.balance else 0) +
        balanceOf rest type currency := by
  unfold balanceOf
  by_cases hpair : wallet.type = type ∧ wallet.currency = currency
  · obtain ⟨rfl, rfl⟩ := hpair
    have hnone : (rest.find? fun wallet' => wallet'.type = wallet.type ∧
        wallet'.currency = wallet.currency) = none := by
      apply List.find?_eq_none.mpr
      intro wallet' hwallet'
      have := h wallet' hwallet'
      simp only [decide_eq_true_eq]
      exact fun hpair => this ⟨hpair.1.symm, hpair.2.symm⟩
    rw [List.find?_cons_of_pos (by simp), hnone]
    simp
  · rw [List.find?_cons_of_neg (by simpa using hpair), if_neg hpair, zero_add]

/-- Wallets are summed by currency and type. -/
theorem sum_wallets (price : String → ℚ) {wallets : List WalletRow} (h : UniquePairs wallets)
    {types currencies : Finset String} (htypes : ∀ wallet ∈ wallets, wallet.type ∈ types)
    (hcurrencies : ∀ wallet ∈ wallets, wallet.currency ∈ currencies) :
    (wallets.map fun wallet => wallet.balance * price wallet.currency).sum =
      ∑ currency ∈ currencies, (∑ type ∈ types, balanceOf wallets type currency) *
        price currency := by
  induction wallets with
  | nil => simp [balanceOf]
  | cons wallet rest ih =>
    obtain ⟨hwallet, hrest⟩ := List.pairwise_cons.mp h
    obtain ⟨htype, htypes⟩ := List.forall_mem_cons.mp htypes
    obtain ⟨hcurrency, hcurrencies⟩ := List.forall_mem_cons.mp hcurrencies
    rw [List.map_cons, List.sum_cons, ih hrest htypes hcurrencies]
    simp only [balanceOf_cons hwallet, Finset.sum_add_distrib, add_mul]
    congr 1
    rw [Finset.sum_eq_single wallet.currency, Finset.sum_eq_single wallet.type]
    · simp
    · intro type _ hne
      exact if_neg fun hpair => hne hpair.1.symm
    · exact fun hnot => absurd htype hnot
    · intro currency _ hne
      rw [Finset.sum_eq_zero, zero_mul]
      intro type _
      exact if_neg fun hpair => hne hpair.2.symm
    · exact fun hnot => absurd hcurrency hnot

section Carried

/-- The wallets after the blocks of rows of some frames. -/
def carried (wallets : List WalletRow) (bs : List (ℤ × List WalletRow)) : List WalletRow :=
  bs.foldl (fun wallets b => b.2 ++ missingWallets wallets b.2) wallets

theorem mem_missingWallets {wallets data : List WalletRow} {wallet : WalletRow} :
    wallet ∈ missingWallets wallets data ↔ wallet ∈ wallets ∧
      ∀ row ∈ data, ¬ (wallet.type = row.type ∧ wallet.currency = row.currency) := by
  simp only [missingWallets, List.mem_filter, List.all_eq_true, Bool.or_eq_true, decide_eq_true_eq]
  refine and_congr_right fun _ => forall_congr' fun row => forall_congr' fun _ => ?_
  tauto

/-- Rows come before the wallets they are about. -/
theorem find?_append_missingWallets (wallets data : List WalletRow) (type currency : String) :
    (data ++ missingWallets wallets data).find? (fun wallet => wallet.type = type ∧
        wallet.currency = currency) =
      (data.find? fun wallet => wallet.type = type ∧ wallet.currency = currency).or
        (wallets.find? fun wallet => wallet.type = type ∧ wallet.currency = currency) := by
  rw [List.find?_append]
  cases hdata : data.find? fun wallet => wallet.type = type ∧ wallet.currency = currency with
  | some row => rfl
  | none =>
    rw [Option.none_or, Option.none_or, missingWallets, List.find?_filter]
    congr 1
    funext wallet
    by_cases hpair : wallet.type = type ∧ wallet.currency = currency
    · obtain ⟨rfl, rfl⟩ := hpair
      have hall : wallet ∈ missingWallets [wallet] data := by
        refine mem_missingWallets.mpr ⟨List.mem_singleton_self wallet, ?_⟩
        intro row hrow hpair
        have := List.find?_eq_none.mp hdata row hrow
        simp [hpair] at this
      simpa [missingWallets] using hall
    · simp [hpair]

theorem uniquePairs_append_missingWallets {wallets data : List WalletRow} (h : UniquePairs wallets)
    (hdata : UniquePairs data) : UniquePairs (data ++ missingWallets wallets data) := by
  refine List.pairwise_append.mpr ⟨hdata, h.filter _, ?_⟩
  intro row hrow wallet hwallet hpair
  exact (mem_missingWallets.mp hwallet).2 row hrow ⟨hpair.1.symm, hpair.2.symm⟩

theorem uniquePairs_carried {wallets : List WalletRow} {bs : List (ℤ × List WalletRow)}
    (h : UniquePairs wallets) (hbs : ∀ b ∈ bs, UniquePairs b.2) :
    UniquePairs (carried wallets bs) := by
  induction bs generalizing wallets with
  | nil => exact h
  | cons b rest ih =>
    obtain ⟨hb, hrest⟩ := List.forall_mem_cons.mp hbs
    exact ih (uniquePairs_append_missingWallets h hb) hrest

/-- The latest row that has been carried, or the wallet before all rows. -/
theorem find?_carried (wallets : List WalletRow) (bs : List (ℤ × List WalletRow))
    (type currency : String) :
    (carried wallets bs).find? (fun wallet => wallet.type = type ∧ wallet.currency = currency) =
      ((bs.reverse.flatMap Prod.snd).find? fun wallet => wallet.type = type ∧
        wallet.currency = currency).or
        (wallets.find? fun wallet => wallet.type = type ∧ wallet.currency = currency) := by
  induction bs generalizing wallets with
  | nil => rfl
  | cons b rest ih =>
    rw [carried, List.foldl_cons, ← carried, ih, find?_append_missingWallets, List.reverse_cons,
      List.flatMap_append, List.find?_append, Option.or_assoc]
    simp

theorem mem_carried {wallets : List WalletRow} {bs : List (ℤ × List WalletRow)}
    {wallet : WalletRow} (h : wallet ∈ carried wallets bs) :
    wallet ∈ wallets ∨ ∃ b ∈ bs, wallet ∈ b.2 := by
  induction bs generalizing wallets with
  | nil => exact .inl h
  | cons b rest ih =>
    rcases ih h with hmem | ⟨b', hb', hmem⟩
    · rcases List.mem_append.mp hmem with hdata | hmissing
      · exact .inr ⟨b, List.mem_cons_self, hdata⟩
      · exact .inl (mem_missingWallets.mp hmissing).1
    · exact .inr ⟨b', List.mem_cons_of_mem _ hb', hmem⟩

end Carried

section Answers

/-- A group is never without currencies. -/
theorem groupWalletsByCurrency_ne_nil {wallets : List WalletRow} (h : wallets ≠ []) :
    groupWalletsByCurrency wallets ≠ [] := by
  have hadd : ∀ symb balance accum, addTo symb balance accum ≠ [] := by
    intro symb balance accum
    cases accum with
    | nil => simp [addTo]
    | cons entry rest =>
      rw [addTo]
      split_ifs <;> simp
  obtain ⟨init, last, rfl⟩ := (List.eq_nil_or_concat' wallets).resolve_left h
  rw [groupWalletsByCurrency, List.foldl_append, List.foldl_cons, List.foldl_nil]
  exact hadd _ _ _

/-- The group of a frame is the one of all that has been carried up to it. -/
theorem mem_answers {wallets : List WalletRow} {bs : List (ℤ × List WalletRow)}
    (hkeys : (bs.map Prod.fst).Pairwise (· < ·)) (hdata : ∀ b ∈ bs, b.2 ≠ [])
    (frame : ℤ) (vals : Balances) :
    (frame, some vals) ∈ answers calcWalletsInTimeframe wallets bs ↔
      frame ∈ bs.map Prod.fst ∧
        vals = groupWalletsByCurrency (carried wallets (bs.filter fun b => b.1 ≤ frame)) := by
  induction bs generalizing wallets with
  | nil => simp [answers]
  | cons b rest ih =>
    obtain ⟨hb, hrest⟩ := List.pairwise_cons.mp hkeys
    obtain ⟨hne, hdata⟩ := List.forall_mem_cons.mp hdata
    have hvals : groupWalletsByCurrency (b.2 ++ missingWallets wallets b.2) ≠ [] :=
      groupWalletsByCurrency_ne_nil (by simp [hne])
    have hcons : answers calcWalletsInTimeframe wallets (b :: rest) =
        (b.1, some (groupWalletsByCurrency (b.2 ++ missingWallets wallets b.2))) ::
          answers calcWalletsInTimeframe (b.2 ++ missingWallets wallets b.2) rest := by
      rw [answers, calcWalletsInTimeframe]
      simp only [if_neg hvals]
    rw [hcons, List.mem_cons, ih hrest hdata, List.map_cons, List.mem_cons, Prod.mk.injEq,
      Option.some.injEq]
    by_cases hframe : frame = b.1
    · subst hframe
      have hnot : b.1 ∉ rest.map Prod.fst := fun hmem => lt_irrefl _ (hb b.1 hmem)
      have hnil : rest.filter (fun b' => b'.1 ≤ b.1) = [] := by
        apply List.filter_eq_nil_iff.mpr
        intro b' hb'
        have := hb b'.1 (List.mem_map_of_mem hb')
        simpa using this
      rw [List.filter_cons_of_pos (by simp), hnil]
      simp only [hnot, false_and, or_false, true_and]
      rfl
    · simp only [hframe, false_and, false_or]
      refine and_congr_right fun hmem => ?_
      rw [List.filter_cons_of_pos (by simpa using (hb frame hmem).le)]
      rfl

end Answers

section Report

variable (getPriceFromData : String → ℤ → Option ℚ) {forexSymbs : List String}
  {timeframe : Timeframe}

/-- The price of a currency in USD at the end of a frame, 0 if there is none. -/
def usdPrice (timeframe : Timeframe) (frame : ℤ) (currency : String) : ℚ :=
  if currency = "USD" then 1
  else (getCandlesClosePrice getPriceFromData timeframe frame currency).getD 0

theorem convertForexToUsd_eq (obj : Balances) (frame : ℤ) :
    convertForexToUsd getPriceFromData timeframe obj frame =
      weigh (usdPrice getPriceFromData timeframe frame) obj := by
  have hfold : ∀ (obj : Balances) (accum : ℚ), obj.foldl (fun accum entry =>
      if entry.1 = "USD" then accum + entry.2
      else (getCandlesClosePrice getPriceFromData timeframe frame entry.1).elim accum fun price =>
        accum + entry.2 * price) accum =
      accum + weigh (usdPrice getPriceFromData timeframe frame) obj := by
    intro obj
    induction obj with
    | nil => simp [weigh]
    | cons entry rest ih =>
      intro accum
      rw [List.foldl_cons, ih]
      simp only [weigh, List.map_cons, List.sum_cons, usdPrice]
      split_ifs
      · ring
      · cases getCandlesClosePrice getPriceFromData timeframe frame entry.1 with
        | none => simp
        | some price =>
          simp only [Option.getD_some, Option.elim_some]
          ring
  rw [convertForexToUsd, hfold, zero_add]

/-- What is already in USD is not priced again. -/
theorem weigh_priced (hforex : "USD" ∈ forexSymbs) (frame : ℤ) (walletsArr : Balances) :
    weigh (usdPrice getPriceFromData timeframe frame) (walletsArr.foldl (fun accum entry =>
      if entry.1 ∈ forexSymbs then addTo entry.1 entry.2 accum
      else (getCandlesClosePrice getPriceFromData timeframe frame entry.1).elim accum fun price =>
        addTo "USD" (entry.2 * price) accum) []) =
      weigh (usdPrice getPriceFromData timeframe frame) walletsArr := by
  have hfold : ∀ (walletsArr accum : Balances),
      weigh (usdPrice getPriceFromData timeframe frame) (walletsArr.foldl (fun accum entry =>
        if entry.1 ∈ forexSymbs then addTo entry.1 entry.2 accum
        else (getCandlesClosePrice getPriceFromData timeframe frame entry.1).elim accum fun price =>
          addTo "USD" (entry.2 * price) accum) accum) =
        weigh (usdPrice getPriceFromData timeframe frame) accum +
          weigh (usdPrice getPriceFromData timeframe frame) walletsArr := by
    intro walletsArr
    induction walletsArr with
    | nil => simp [weigh]
    | cons entry rest ih =>
      intro accum
      rw [List.foldl_cons, ih]
      have hcons : weigh (usdPrice getPriceFromData timeframe frame) (entry :: rest) =
          entry.2 * usdPrice getPriceFromData timeframe frame entry.1 +
            weigh (usdPrice getPriceFromData timeframe frame) rest := by
        simp [weigh]
      rw [hcons]
      split_ifs with hmem
      · rw [weigh_addTo]
        ring
      · have hne : entry.1 ≠ "USD" := fun heq => hmem (heq ▸ hforex)
        cases hprice : getCandlesClosePrice getPriceFromData timeframe frame entry.1 with
        | none => simp [usdPrice, hne, hprice]
        | some price =>
          rw [Option.elim_some, weigh_addTo]
          simp only [usdPrice, if_true, hne, if_false, hprice, Option.getD_some]
          ring
  rw [hfold]
  simp [weigh]

/-- One frame of the fold: the group of the frame, or what the frame before has left. -/
theorem walletsByTimeframe_eq (hforex : "USD" ∈ forexSymbs) (now : ℤ) (prevRes : Balances)
    {item : MergedItem SeriesVals} {frame : ℤ}
    (hframe : item.vals .mtsGroupedByTimeframe = some frame)
    {balances : Balances} (hbalances : item.vals .walletsGroupedByTimeframe = some balances ∧
      balances ≠ [] ∨ item.vals .walletsGroupedByTimeframe = none ∧ balances = prevRes) :
    walletsByTimeframe getPriceFromData forexSymbs timeframe now prevRes item =
      ((item.mts, weigh (usdPrice getPriceFromData timeframe frame) balances +
        ((item.vals .plGroupedByTimeframe).bind id).getD 0), balances) := by
  have hres : ∀ walletsArr, convertForexToUsd getPriceFromData timeframe
      (walletsArr.foldl (fun accum entry =>
        if entry.1 ∈ forexSymbs then addTo entry.1 entry.2 accum
        else (getCandlesClosePrice getPriceFromData timeframe frame entry.1).elim accum fun price =>
          addTo "USD" (entry.2 * price) accum) []) frame =
      weigh (usdPrice getPriceFromData timeframe frame) walletsArr := by
    intro walletsArr
    rw [convertForexToUsd_eq, weigh_priced getPriceFromData hforex]
  unfold walletsByTimeframe
  rw [hframe]
  dsimp only [Option.getD_some]
  rcases hbalances with ⟨hsome, hne⟩ | ⟨hnone, rfl⟩
  · rw [hsome, Option.getD_some, if_neg (fun hnil => hne hnil.1), hres]
  · rw [hnone, Option.getD_none]
    by_cases hnil : balances = []
    · rw [if_neg (fun h => h.2 hnil), hres, hnil]
    · rw [if_pos ⟨rfl, hnil⟩, hres]

end Report

end ReportsFramework
