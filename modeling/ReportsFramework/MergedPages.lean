/-
Several sources of dated records that are paged as one: their pages with one end are merged, the
newest up to a limit are answered, and the client goes on from the oldest of these.  The client
obtains the records of all sources exactly if no record that a page leaves out is newer than what
the limit cuts.
-/
import Mathlib.Data.List.Dedup
import Mathlib.Data.List.Duplicate
import Mathlib.Data.List.Flatten
import Mathlib.Data.List.Perm.Subperm
import Mathlib.Tactic.SplitIfs
import ReportsFramework.Windows

namespace MergedPages

open Windows

variable {ρ : Type*} {date : ρ → ℤ}

/-- A source that is asked for pages by their end.  A page holds records up to its end, not
necessarily all of them. -/
structure Source (date : ρ → ℤ) where
  records : List ρ
  page : ℤ → List ρ
  nodup : records.Nodup
  nodup_page : ∀ e, (page e).Nodup
  mem_page : ∀ e, ∀ r ∈ page e, r ∈ records ∧ date r ≤ e

/-- The records up to an end. -/
def upTo (date : ρ → ℤ) (records : List ρ) (e : ℤ) : List ρ :=
  records.filter fun r => date r ≤ e

def Source.upTo (source : Source date) (e : ℤ) : List ρ :=
  MergedPages.upTo date source.records e

def returned (sources : List (Source date)) (e : ℤ) : List ρ :=
  sources.flatMap fun source => source.page e

def union (sources : List (Source date)) (e : ℤ) : List ρ :=
  sources.flatMap fun source => source.upTo e

/-- What is answered; without a next page there is nothing to go on with. -/
structure Answer (ρ : Type*) where
  res : List ρ
  nextPage : Option ℤ

/-- The records are sorted and cut to the limit; the next page is the date of the oldest one that is
kept, if the limit is reached. -/
def IsCut (date : ρ → ℤ) (limit : ℕ) (records : List ρ) (answer : Answer ρ) : Prop :=
  ∃ sorted : List ρ, sorted.Perm records ∧ NewestFirst date sorted ∧
    answer.res = sorted.take limit ∧
    answer.nextPage =
      if limit ≤ sorted.length then (sorted.take limit).getLast?.map date else none

/-- An answer that loses nothing of the records: it holds those newer than the next page, which
is the date of an older one, or all of them. -/
structure Serves (date : ρ → ℤ) (records : List ρ) (e : ℤ) (answer : Answer ρ) : Prop where
  last : answer.nextPage = none → answer.res.Perm (upTo date records e)
  older : ∀ n, answer.nextPage = some n → n < e
  dated : ∀ n, answer.nextPage = some n → ∃ r ∈ records, date r = n
  newer : ∀ n, answer.nextPage = some n →
    (answer.res.filter fun r => n < date r).Perm
      ((upTo date records e).filter fun r => n < date r)

/-- What a client obtains that follows the next page to the end.  The records at the date of the
next page come again with it, so that of a page only the newer ones count. -/
inductive Obtains (date : ρ → ℤ) (answer : ℤ → Answer ρ) : ℤ → List ρ → Prop
  | last {e : ℤ} (hlast : (answer e).nextPage = none) : Obtains date answer e (answer e).res
  | next {e n : ℤ} {rest : List ρ} (hnext : (answer e).nextPage = some n)
      (hrest : Obtains date answer n rest) :
      Obtains date answer e ((answer e).res.filter (fun r => n < date r) ++ rest)

/-- The ends that the client asks with. -/
inductive Asked (answer : ℤ → Answer ρ) (e₀ : ℤ) : ℤ → Prop
  | first : Asked answer e₀ e₀
  | next {e n : ℤ} (hasked : Asked answer e₀ e) (hnext : (answer e).nextPage = some n) :
      Asked answer e₀ n

/-- Each record that a page leaves out has as many returned ones at its date or later as the limit
allows, and the returned ones at the end itself do not reach the limit. -/
structure Covers (sources : List (Source date)) (limit : ℕ) (e : ℤ) : Prop where
  leftOut : ∀ source ∈ sources, ∀ r ∈ source.upTo e, r ∉ source.page e →
    limit ≤ ((returned sources e).filter fun m => date r ≤ date m).length
  moves : ((returned sources e).filter fun m => e ≤ date m).length < limit

/-! ### The cut -/

section Cut

variable {limit : ℕ} {records : List ρ} {answer : Answer ρ}

theorem IsCut.of_none (hcut : IsCut date limit records answer) (hlimit : 0 < limit)
    (hnone : answer.nextPage = none) : records.length < limit ∧ answer.res.Perm records := by
  obtain ⟨sorted, hperm, -, hres, hnext⟩ := hcut
  rw [hnone] at hnext
  by_cases hreached : limit ≤ sorted.length
  · rw [if_pos hreached] at hnext
    have hnil : sorted.take limit = [] := by simpa using hnext.symm
    have hlength := congrArg List.length hnil
    rw [List.length_take, List.length_nil] at hlength
    omega
  · constructor
    · rw [← hperm.length_eq]
      omega
    · rw [hres, List.take_of_length_le (by omega)]
      exact hperm

/-- The newer ones are all kept, and it is the limit that decides what is newer. -/
theorem IsCut.of_some (hcut : IsCut date limit records answer) {n : ℤ}
    (hsome : answer.nextPage = some n) :
    (answer.res.filter fun r => n < date r).Perm (records.filter fun r => n < date r) ∧
      (∀ d, limit ≤ (records.filter fun r => d ≤ date r).length ↔ d ≤ n) ∧
      ∃ r ∈ records, date r = n := by
  obtain ⟨sorted, hperm, hsorted, hres, hnext⟩ := hcut
  rw [hsome] at hnext
  split_ifs at hnext with hreached
  obtain ⟨last, hlast, hdate⟩ := Option.map_eq_some_iff.mp hnext.symm
  have hsplit : sorted.take limit ++ sorted.drop limit = sorted :=
    List.take_append_drop limit sorted
  have hpairwise := hsorted
  rw [NewestFirst, ← hsplit, List.pairwise_append] at hpairwise
  obtain ⟨hkeptSorted, -, hcross⟩ := hpairwise
  have hlastMem : last ∈ sorted.take limit := List.mem_of_getLast? hlast
  have hkept : ∀ r ∈ sorted.take limit, n ≤ date r := by
    intro r hr
    rw [← hdate]
    exact NewestFirst.getLast_le hkeptSorted hlast hr
  have hrest : ∀ r ∈ sorted.drop limit, date r ≤ n := by
    intro r hr
    rw [← hdate]
    exact hcross last hlastMem r hr
  have hcount (d : ℤ) (hd : n < d) :
      (sorted.filter fun r => d ≤ date r) = (sorted.take limit).filter fun r => d ≤ date r := by
    conv_lhs => rw [← hsplit]
    rw [List.filter_append]
    have hnone : (sorted.drop limit).filter (fun r => d ≤ date r) = [] := by
      apply List.filter_eq_nil_iff.mpr
      intro r hr
      have hle := hrest r hr
      simp only [decide_eq_true_eq]
      omega
    rw [hnone, List.append_nil]
  refine ⟨?_, ?_, ?_⟩
  · have hnewer := hcount (n + 1) (by omega)
    simp only [Int.add_one_le_iff] at hnewer
    rw [hres, ← hnewer]
    exact hperm.filter _
  · intro d
    rw [← (hperm.filter _).length_eq]
    constructor
    · intro hle
      by_contra hlt
      rw [hcount d (by omega)] at hle
      have hall := List.length_filter_eq_length_iff.mp
        (le_antisymm (List.length_filter_le _ _)
          ((List.length_take_le limit sorted).trans hle)) last hlastMem
      simp only [decide_eq_true_eq] at hall
      omega
    · intro hle
      have hall : (sorted.take limit).filter (fun r => d ≤ date r) = sorted.take limit := by
        apply List.filter_eq_self.mpr
        intro r hr
        have hge := hkept r hr
        simp only [decide_eq_true_eq]
        omega
      have hsub : ((sorted.take limit).filter fun r => d ≤ date r).length ≤
          (sorted.filter fun r => d ≤ date r).length :=
        ((List.take_sublist limit sorted).filter _).length_le
      rw [hall, List.length_take] at hsub
      omega
  · exact ⟨last, hperm.mem_iff.mp (List.mem_of_mem_take hlastMem), hdate⟩

theorem IsCut.congr {records' : List ρ} (hcut : IsCut date limit records answer)
    (hperm : records.Perm records') : IsCut date limit records' answer := by
  obtain ⟨sorted, hsorted, hrest⟩ := hcut
  exact ⟨sorted, hsorted.trans hperm, hrest⟩

/-- What was cut before is cut the same. -/
theorem IsCut.of_take (hrecords : NewestFirst date records)
    (hcut : IsCut date limit (records.take limit) answer) : IsCut date limit records answer := by
  obtain ⟨sorted, hperm, hsorted, hres, hnext⟩ := hcut
  have hlength : sorted.length = min limit records.length := by
    rw [hperm.length_eq, List.length_take]
  have htake : (sorted ++ records.drop limit).take limit = sorted.take limit := by
    by_cases hreached : limit ≤ records.length
    · rw [List.take_append_of_le_length (by omega)]
    · rw [List.drop_of_length_le (by omega), List.append_nil]
  refine ⟨sorted ++ records.drop limit, ?_, ?_, ?_, ?_⟩
  · exact (hperm.append_right _).trans (List.Perm.of_eq (List.take_append_drop limit records))
  · have hsplit := hrecords
    rw [NewestFirst, ← List.take_append_drop limit records, List.pairwise_append] at hsplit
    obtain ⟨-, hdrop, hcross⟩ := hsplit
    apply List.pairwise_append.mpr
    refine ⟨hsorted, hdrop, ?_⟩
    intro r hr r' hr'
    exact hcross r (hperm.mem_iff.mp hr) r' hr'
  · rw [hres, htake]
  · rw [hnext, htake]
    have hiff : limit ≤ sorted.length ↔ limit ≤ (sorted ++ records.drop limit).length := by
      rw [List.length_append, List.length_drop]
      omega
    simp only [hiff]

end Cut

/-! ### Records up to an end -/

section UpTo

variable {records : List ρ} {e n : ℤ}

theorem mem_upTo {r : ρ} : r ∈ upTo date records e ↔ r ∈ records ∧ date r ≤ e := by
  simp [upTo]

theorem filter_upTo (hn : n ≤ e) :
    (upTo date records e).filter (fun r => date r ≤ n) = upTo date records n := by
  unfold upTo
  rw [List.filter_filter]
  apply List.filter_congr
  intro r _
  rw [Bool.eq_iff_iff]
  simp only [Bool.and_eq_true, decide_eq_true_eq]
  omega

/-- The records up to an end are the newer ones and those up to an earlier end. -/
theorem upTo_perm (hn : n ≤ e) :
    (upTo date records e).Perm
      ((upTo date records e).filter (fun r => n < date r) ++ upTo date records n) := by
  rw [← filter_upTo hn]
  have hneg : (fun r : ρ => decide (date r ≤ n)) = fun r => !decide (n < date r) := by
    funext r
    rw [← decide_not]
    simp only [Int.not_lt]
  rw [hneg]
  exact (List.filter_append_perm _ _).symm

theorem exists_le_date (date : ρ → ℤ) (records : List ρ) : ∃ b, ∀ r ∈ records, b ≤ date r := by
  induction records with
  | nil => exact ⟨0, by simp⟩
  | cons r records ih =>
      obtain ⟨b, hb⟩ := ih
      refine ⟨min b (date r), ?_⟩
      intro r' hr'
      rcases List.mem_cons.mp hr' with rfl | hr'
      · omega
      · have hle := hb r' hr'
        omega

end UpTo

/-! ### What is returned of the sources -/

section Returned

variable {sources : List (Source date)} {source : Source date} {e : ℤ} {p : ρ → Bool}

theorem Source.mem_upTo {r : ρ} : r ∈ source.upTo e ↔ r ∈ source.records ∧ date r ≤ e :=
  MergedPages.mem_upTo

theorem Source.page_subset (source : Source date) (e : ℤ) : source.page e ⊆ source.upTo e := by
  intro r hr
  exact Source.mem_upTo.mpr (source.mem_page e r hr)

theorem mem_returned {r : ρ} : r ∈ returned sources e ↔ ∃ source ∈ sources, r ∈ source.page e :=
  List.mem_flatMap

theorem date_le_of_mem_returned {r : ρ} (hr : r ∈ returned sources e) : date r ≤ e := by
  obtain ⟨source, -, hpage⟩ := mem_returned.mp hr
  exact (source.mem_page e r hpage).2

theorem Source.subperm (source : Source date) (e : ℤ) (p : ρ → Bool) :
    ((source.page e).filter p).Subperm ((source.upTo e).filter p) := by
  apply List.Nodup.subperm ((source.nodup_page e).filter p)
  intro r hr
  obtain ⟨hpage, hp⟩ := List.mem_filter.mp hr
  exact List.mem_filter.mpr ⟨source.page_subset e hpage, hp⟩

/-- Where no page leaves out a record of a kind, all records of that kind are returned. -/
theorem filter_returned_perm
    (hall : ∀ source ∈ sources, ∀ r ∈ source.upTo e, p r = true → r ∈ source.page e) :
    ((returned sources e).filter p).Perm ((union sources e).filter p) := by
  unfold returned union
  rw [List.filter_flatMap, List.filter_flatMap]
  apply List.Perm.flatMap_left
  intro source hsource
  have hnodup : ((source.upTo e).filter p).Nodup := (source.nodup.filter _).filter p
  apply (List.perm_ext_iff_of_nodup ((source.nodup_page e).filter p) hnodup).mpr
  intro r
  rw [List.mem_filter, List.mem_filter]
  constructor
  · rintro ⟨hpage, hp⟩
    exact ⟨source.page_subset e hpage, hp⟩
  · rintro ⟨hupTo, hp⟩
    exact ⟨hall source hsource r hupTo hp, hp⟩

theorem length_filter_returned_le (sources : List (Source date)) (e : ℤ) (p : ρ → Bool) :
    ((returned sources e).filter p).length ≤ ((union sources e).filter p).length := by
  unfold returned union
  induction sources with
  | nil => exact Nat.le_refl _
  | cons source sources ih =>
      have hle := (source.subperm e p).length_le
      simp only [List.flatMap_cons, List.filter_append, List.length_append]
      omega

/-- Where all records of a kind are returned, no page leaves one out. -/
theorem mem_page_of_length
    (hlength : ((union sources e).filter p).length ≤ ((returned sources e).filter p).length)
    (hsource : source ∈ sources) {r : ρ} (hr : r ∈ source.upTo e) (hp : p r = true) :
    r ∈ source.page e := by
  induction sources with
  | nil => simp at hsource
  | cons first sources ih =>
      have hfirst := (first.subperm e p).length_le
      have hothers := length_filter_returned_le sources e p
      unfold returned union at hlength hothers ih
      simp only [List.flatMap_cons, List.filter_append, List.length_append] at hlength
      rcases List.mem_cons.mp hsource with rfl | hsource
      · have hperm := (source.subperm e p).perm_of_length_le (by omega)
        have hmem := hperm.symm.mem_iff.mp (List.mem_filter.mpr ⟨hr, hp⟩)
        exact (List.mem_filter.mp hmem).1
      · exact ih (by omega) hsource

theorem union_eq (sources : List (Source date)) (e : ℤ) :
    union sources e = upTo date (sources.flatMap Source.records) e := by
  unfold upTo
  rw [List.filter_flatMap]
  rfl

end Returned

/-! ### Following the next page -/

section Follow

variable {answer : ℤ → Answer ρ} {e : ℤ}

theorem Asked.of_next {n e' : ℤ} (hnext : (answer e).nextPage = some n)
    (hasked : Asked answer n e') : Asked answer e e' := by
  induction hasked with
  | first => exact .next .first hnext
  | next _ hnext' ih => exact .next ih hnext'

/-- The first request, or one that follows the first next page. -/
theorem Asked.head {e' : ℤ} (hasked : Asked answer e e') :
    e' = e ∨ ∃ n, (answer e).nextPage = some n ∧ Asked answer n e' := by
  induction hasked with
  | first => exact .inl rfl
  | @next e' n hasked hnext ih =>
      right
      rcases ih with rfl | ⟨n', hfirst, hrest⟩
      · exact ⟨n, hnext, .first⟩
      · exact ⟨n', hfirst, .next hrest hnext⟩

/-- Where no answer loses anything, everything is obtained. -/
theorem exists_obtains_of_serves {records : List ρ}
    (hserves : ∀ e', Asked answer e e' → Serves date records e' (answer e')) :
    ∃ got, Obtains date answer e got ∧ got.Perm (upTo date records e) := by
  obtain ⟨b, hb⟩ := exists_le_date date records
  -- the ends go down towards the oldest record
  induction hk : (e - b).toNat using Nat.strong_induction_on generalizing e with
  | h k ih =>
      have hserve := hserves e .first
      cases hnext : (answer e).nextPage with
      | none => exact ⟨_, .last hnext, hserve.last hnext⟩
      | some n =>
          have hlt := hserve.older n hnext
          obtain ⟨r, hr, hdate⟩ := hserve.dated n hnext
          have hlow := hb r hr
          obtain ⟨rest, hrest, hperm⟩ :=
            ih (n - b).toNat (by omega) (fun e' hasked => hserves e' (hasked.of_next hnext)) rfl
          refine ⟨_, .next hnext hrest, ?_⟩
          exact ((hserve.newer n hnext).append hperm).trans (upTo_perm (by omega)).symm

end Follow

/-! ### A source with next pages of its own -/

/-- A source that says itself where its next page begins. -/
structure PagedSource (date : ρ → ℤ) extends Source date where
  nextPage : ℤ → Option ℤ
  last : ∀ e, nextPage e = none → ∀ r ∈ records, date r ≤ e → r ∈ page e
  older : ∀ e n, nextPage e = some n → n < e
  dated : ∀ e n, nextPage e = some n → ∃ r ∈ records, date r = n
  newer : ∀ e n, nextPage e = some n → ∀ r ∈ records, n < date r → date r ≤ e → r ∈ page e

def PagedSource.answer (source : PagedSource date) (e : ℤ) : Answer ρ :=
  ⟨source.page e, source.nextPage e⟩

theorem PagedSource.serves (source : PagedSource date) (e : ℤ) :
    Serves date source.records e (source.answer e) := by
  have hperm (p : ρ → Bool) (hall : ∀ r ∈ source.upTo e, p r = true → r ∈ source.page e) :
      ((source.page e).filter p).Perm ((source.upTo e).filter p) := by
    have hsource : ∀ source' ∈ [source.toSource], ∀ r ∈ source'.upTo e, p r = true →
        r ∈ source'.page e := by
      intro source' hmem
      rw [List.mem_singleton.mp hmem]
      exact hall
    simpa [returned, union] using filter_returned_perm hsource
  refine ⟨?_, source.older e, source.dated e, ?_⟩
  · intro hlast
    have hall := hperm (fun _ => true) fun r hr _ =>
      source.last e hlast r (mem_upTo.mp hr).1 (mem_upTo.mp hr).2
    simp only [List.filter_true] at hall
    exact hall
  · intro n hnext
    apply hperm
    intro r hr hnew
    exact source.newer e n hnext r (mem_upTo.mp hr).1 (of_decide_eq_true hnew) (mem_upTo.mp hr).2

/-- Records of different dates, newest first, on pages of one size. -/
def PagedSource.ofList (date : ρ → ℤ) (records : List ρ)
    (hdates : records.Pairwise fun r r' => date r' < date r) (size : ℕ) (hsize : 0 < size) :
    PagedSource date where
  records := records
  page e := (upTo date records e).take size
  nextPage e := (upTo date records e)[size]?.map date
  nodup := hdates.imp fun hlt heq => by
    rw [heq] at hlt
    exact Int.lt_irrefl _ hlt
  nodup_page e := by
    apply List.Nodup.sublist (List.take_sublist size _)
    refine List.Pairwise.imp ?_ (hdates.filter _)
    intro r r' hlt heq
    rw [heq] at hlt
    exact Int.lt_irrefl _ hlt
  mem_page e r hr := mem_upTo.mp (List.mem_of_mem_take hr)
  last e hnone r hr hle := by
    rw [Option.map_eq_none_iff, List.getElem?_eq_none_iff] at hnone
    rw [List.take_of_length_le hnone]
    exact mem_upTo.mpr ⟨hr, hle⟩
  older e n hsome := by
    obtain ⟨r, hr, rfl⟩ := Option.map_eq_some_iff.mp hsome
    obtain ⟨hlength, rfl⟩ := List.getElem?_eq_some_iff.mp hr
    have hfirst := List.pairwise_iff_getElem.mp (hdates.filter fun r => date r ≤ e) 0 size
      (by exact Nat.lt_trans hsize hlength) hlength hsize
    have hle := (mem_upTo.mp (List.getElem_mem (Nat.lt_trans hsize hlength))).2
    exact Int.lt_of_lt_of_le hfirst hle
  dated e n hsome := by
    obtain ⟨r, hr, rfl⟩ := Option.map_eq_some_iff.mp hsome
    exact ⟨r, (mem_upTo.mp (List.mem_of_getElem? hr)).1, rfl⟩
  newer e n hsome r hr hnew hle := by
    obtain ⟨r', hr', rfl⟩ := Option.map_eq_some_iff.mp hsome
    obtain ⟨hlength, rfl⟩ := List.getElem?_eq_some_iff.mp hr'
    obtain ⟨i, hi, rfl⟩ := List.getElem_of_mem (mem_upTo.mpr ⟨hr, hle⟩)
    by_cases hbefore : i < size
    · exact List.mem_take_iff_getElem.mpr ⟨i, by omega, rfl⟩
    · rcases Nat.eq_or_lt_of_not_lt hbefore with heq | hlt
      · subst heq
        exact absurd hnew (Int.lt_irrefl _)
      · have hold := List.pairwise_iff_getElem.mp (hdates.filter fun r => date r ≤ e) size i
          hlength hi hlt
        exact absurd hnew (Int.not_lt.mpr (Int.le_of_lt hold))

/-! ### What the client obtains -/

section Client

variable {sources : List (Source date)} {limit : ℕ} {answer : ℤ → Answer ρ}
  (hlimit : 0 < limit) (hcut : ∀ e, IsCut date limit (returned sources e) (answer e))

include hcut in
/-- A next page is not newer than the end that was asked with. -/
theorem nextPage_le {e n : ℤ} (hnext : (answer e).nextPage = some n) : n ≤ e := by
  obtain ⟨-, -, r, hr, rfl⟩ := (hcut e).of_some hnext
  exact date_le_of_mem_returned hr

include hlimit hcut

theorem Obtains.date_le {e : ℤ} {got : List ρ} (hobtains : Obtains date answer e got) :
    ∀ r ∈ got, date r ≤ e := by
  induction hobtains with
  | @last e hlast =>
      intro r hr
      obtain ⟨-, hperm⟩ := (hcut e).of_none hlimit hlast
      exact date_le_of_mem_returned (hperm.mem_iff.mp hr)
  | @next e n rest hnext hrest ih =>
      intro r hr
      rcases List.mem_append.mp hr with hr | hr
      · obtain ⟨hperm, -, -⟩ := (hcut e).of_some hnext
        exact date_le_of_mem_returned (List.mem_filter.mp (hperm.mem_iff.mp hr)).1
      · exact Int.le_trans (ih r hr) (nextPage_le hcut hnext)

/-- An answer without a next page that holds everything leaves nothing out. -/
theorem covers_of_last {e : ℤ} (hlast : (answer e).nextPage = none)
    (hgot : (answer e).res.Perm (union sources e)) : Covers sources limit e := by
  obtain ⟨hshort, hperm⟩ := (hcut e).of_none hlimit hlast
  have hlength : ((union sources e).filter fun _ => true).length ≤
      ((returned sources e).filter fun _ => true).length := by
    simp only [List.filter_true]
    exact Nat.le_of_eq (hgot.symm.trans hperm).length_eq
  constructor
  · intro source hsource r hr hout
    exact absurd (mem_page_of_length hlength hsource hr rfl) hout
  · exact Nat.lt_of_le_of_lt (List.length_filter_le _ _) hshort

/-- A client that obtains everything was answered on the way with pages that leave nothing out that
is newer than the cut. -/
theorem covers_of_obtains {e : ℤ} {got : List ρ} (hobtains : Obtains date answer e got)
    (hgot : got.Perm (union sources e)) :
    ∀ e', Asked answer e e' → Covers sources limit e' := by
  induction hobtains with
  | @last e hlast =>
      intro e' hasked
      rcases hasked.head with rfl | ⟨n, hnext, -⟩
      · exact covers_of_last hlimit hcut hlast hgot
      · rw [hlast] at hnext
        cases hnext
  | @next e n rest hnext hrest ih =>
      obtain ⟨hkept, hcount, -⟩ := (hcut e).of_some hnext
      have hle : n ≤ e := nextPage_le hcut hnext
      have hdates : ∀ r ∈ rest, date r ≤ n := hrest.date_le hlimit hcut
      -- the newer ones are those of this page, the others those that come later
      have hnewer : ((returned sources e).filter fun r => n < date r).Perm
          ((union sources e).filter fun r => n < date r) := by
        have hfilter := hgot.filter fun r => n < date r
        have hnone : rest.filter (fun r => n < date r) = [] := by
          apply List.filter_eq_nil_iff.mpr
          intro r hr
          have hdate := hdates r hr
          simp only [decide_eq_true_eq]
          omega
        rw [List.filter_append, List.filter_filter, hnone, List.append_nil] at hfilter
        simp only [Bool.and_self] at hfilter
        exact hkept.symm.trans hfilter
      have hlater : rest.Perm (union sources n) := by
        have hfilter := hgot.filter fun r => date r ≤ n
        have hnone : ((answer e).res.filter fun r => n < date r).filter
            (fun r => date r ≤ n) = [] := by
          apply List.filter_eq_nil_iff.mpr
          intro r hr
          have hdate := (List.mem_filter.mp hr).2
          simp only [decide_eq_true_eq] at hdate ⊢
          omega
        have hall : rest.filter (fun r => date r ≤ n) = rest := by
          apply List.filter_eq_self.mpr
          intro r hr
          exact decide_eq_true (hdates r hr)
        rw [List.filter_append, hnone, hall, List.nil_append, union_eq, filter_upTo hle] at hfilter
        rw [union_eq]
        exact hfilter
      intro e' hasked
      rcases hasked.head with rfl | ⟨n', hnext', hasked⟩
      · constructor
        · intro source hsource r hr hout
          apply (hcount (date r)).mpr
          by_contra hlt
          exact hout (mem_page_of_length (Nat.le_of_eq hnewer.length_eq.symm) hsource hr
            (decide_eq_true (by omega)))
        · -- had the page not moved on, the next request would be this one again
          by_contra hstuck
          have hback : n = e' := by
            have hge := (hcount e').mp (by omega)
            omega
          subst hback
          exact hstuck (ih hlater n .first).moves
      · rw [hnext] at hnext'
        obtain rfl := Option.some.inj hnext'
        exact ih hlater e' hasked

/-- Where the page leaves nothing out that is newer than the cut, the answer loses nothing. -/
theorem serves_of_covers {e : ℤ} (hcovers : Covers sources limit e) :
    Serves date (sources.flatMap Source.records) e (answer e) := by
  constructor
  · intro hlast
    obtain ⟨hshort, hperm⟩ := (hcut e).of_none hlimit hlast
    have hall : ∀ source ∈ sources, ∀ r ∈ source.upTo e, true = true → r ∈ source.page e := by
      intro source hsource r hr _
      by_contra hout
      have hreached := hcovers.leftOut source hsource r hr hout
      have hle := List.length_filter_le (fun m => decide (date r ≤ date m)) (returned sources e)
      omega
    have hreturned := filter_returned_perm hall
    rw [← union_eq]
    apply hperm.trans
    simpa only [List.filter_true] using hreturned
  · intro n hnext
    obtain ⟨-, hcount, -⟩ := (hcut e).of_some hnext
    by_contra hge
    have hreached := (hcount e).mpr (by omega)
    have hmoves := hcovers.moves
    omega
  · intro n hnext
    obtain ⟨-, -, r, hr, hdate⟩ := (hcut e).of_some hnext
    obtain ⟨source, hsource, hpage⟩ := mem_returned.mp hr
    exact ⟨r, List.mem_flatMap.mpr ⟨source, hsource, (source.mem_page e r hpage).1⟩, hdate⟩
  · intro n hnext
    obtain ⟨hkept, hcount, -⟩ := (hcut e).of_some hnext
    rw [← union_eq]
    apply hkept.trans
    apply filter_returned_perm
    intro source hsource r hr hnew
    by_contra hout
    have hle := (hcount (date r)).mp (hcovers.leftOut source hsource r hr hout)
    simp only [decide_eq_true_eq] at hnew
    omega

/-- A client obtains all records of the sources, each once, exactly if its requests are covered. -/
theorem obtains_iff (e : ℤ) :
    (∃ got, Obtains date answer e got ∧ got.Perm (union sources e)) ↔
      ∀ e', Asked answer e e' → Covers sources limit e' := by
  constructor
  · rintro ⟨got, hobtains, hgot⟩
    exact covers_of_obtains hlimit hcut hobtains hgot
  · intro hcovers
    have hserves := exists_obtains_of_serves fun e' hasked =>
      serves_of_covers hlimit hcut (hcovers e' hasked)
    rw [← union_eq] at hserves
    exact hserves

/-- What is obtained without repetition was without repetition on the page that it came with. -/
theorem Obtains.exists_page {e : ℤ} {got : List ρ} (hobtains : Obtains date answer e got)
    (hnodup : got.Nodup) {r : ρ} (hr : r ∈ got) :
    ∃ e' p, r ∈ returned sources e' ∧ p r = true ∧ ((returned sources e').filter p).Nodup := by
  induction hobtains with
  | @last e hlast =>
      obtain ⟨-, hperm⟩ := (hcut e).of_none hlimit hlast
      refine ⟨e, fun _ => true, hperm.mem_iff.mp hr, rfl, ?_⟩
      rw [List.filter_true]
      exact hperm.nodup hnodup
  | @next e n rest hnext hrest ih =>
      rcases List.mem_append.mp hr with hr | hr
      · obtain ⟨hkept, -, -⟩ := (hcut e).of_some hnext
        obtain ⟨hmem, hnew⟩ := List.mem_filter.mp (hkept.mem_iff.mp hr)
        exact ⟨e, _, hmem, hnew, hkept.nodup (List.nodup_append.mp hnodup).1⟩
      · exact ih (List.nodup_append.mp hnodup).2.1 hr

end Client

/-! ### Sources that are asked more than once -/

section Keys

variable {κ : Type*} [DecidableEq κ] (src : κ → Source date) {keys : List κ} {limit : ℕ}
  {answer : ℤ → Answer ρ}

/-- The records of the sources up to an end, those of each source once. -/
def unionOf (keys : List κ) (e : ℤ) : List ρ :=
  keys.dedup.flatMap fun key => (src key).upTo e

theorem flatMap_dedup_perm {α : Type*} {f : κ → List α} {l : List κ}
    (hnil : ∀ key, List.Duplicate key l → f key = []) : (l.flatMap f).Perm (l.dedup.flatMap f) := by
  induction l with
  | nil => exact .refl _
  | cons key l ih =>
      have hrest := ih fun key' hkey' => hnil key' (hkey'.duplicate_cons key)
      by_cases hmem : key ∈ l
      · rw [List.dedup_cons_of_mem hmem, List.flatMap_cons, hnil key hmem.duplicate_cons_self]
        exact hrest
      · rw [List.dedup_cons_of_notMem hmem, List.flatMap_cons, List.flatMap_cons]
        exact hrest.append_left _

variable (hdisjoint : ∀ key ∈ keys, ∀ key' ∈ keys, key ≠ key' →
  ∀ r ∈ (src key).records, r ∉ (src key').records)

include hdisjoint in
theorem nodup_unionOf (e : ℤ) : (unionOf src keys e).Nodup := by
  apply List.nodup_flatMap.mpr
  constructor
  · intro key _
    exact (src key).nodup.filter _
  · refine (List.nodup_dedup keys).imp_of_mem ?_
    intro key key' hkey hkey' hne r hr hr'
    exact hdisjoint key (List.mem_dedup.mp hkey) key' (List.mem_dedup.mp hkey') hne r
      (mem_upTo.mp hr).1 (mem_upTo.mp hr').1

include hdisjoint in
/-- The client obtains the records of all sources, each once, exactly if its requests are covered
and a source that is asked twice has no records. -/
theorem obtains_unionOf_iff (hlimit : 0 < limit)
    (hcut : ∀ e, IsCut date limit (returned (keys.map src) e) (answer e)) (e : ℤ) :
    (∃ got, Obtains date answer e got ∧ got.Perm (unionOf src keys e)) ↔
      (∀ key, List.Duplicate key keys → (src key).upTo e = []) ∧
        ∀ e', Asked answer e e' → Covers (keys.map src) limit e' := by
  have hunion (hnil : ∀ key, List.Duplicate key keys → (src key).upTo e = []) :
      (union (keys.map src) e).Perm (unionOf src keys e) := by
    unfold union
    rw [List.flatMap_map]
    exact flatMap_dedup_perm hnil
  constructor
  · rintro ⟨got, hobtains, hgot⟩
    have hnil : ∀ key, List.Duplicate key keys → (src key).upTo e = [] := by
      intro key hkey
      rw [List.eq_nil_iff_forall_not_mem]
      intro r hr
      have hmem : r ∈ got :=
        hgot.mem_iff.mpr (List.mem_flatMap.mpr ⟨key, List.mem_dedup.mpr hkey.mem, hr⟩)
      obtain ⟨e', p, hreturned, hp, hnodup⟩ := hobtains.exists_page hlimit hcut
        (hgot.symm.nodup (nodup_unionOf src hdisjoint e)) hmem
      -- the page that it came with is the one of its source, which is there twice
      have hpage : r ∈ (src key).page e' := by
        obtain ⟨source, hsource, hpage⟩ := mem_returned.mp hreturned
        obtain ⟨key', hkey', rfl⟩ := List.mem_map.mp hsource
        by_cases hsame : key = key'
        · rw [hsame]
          exact hpage
        · exact absurd ((src key').mem_page e' r hpage).1
            (hdisjoint key hkey.mem key' hkey' hsame r (mem_upTo.mp hr).1)
      have htwice : [r, r].Sublist (returned (keys.map src) e') := by
        have hkeys := ((List.duplicate_iff_sublist.mp hkey).map src).flatMap
          fun source => source.page e'
        refine List.Sublist.trans ?_ hkeys
        have hsingle := List.singleton_sublist.mpr hpage
        simpa using hsingle.append hsingle
      have hfilter := htwice.filter p
      simp only [List.filter_cons, hp, if_true, List.filter_nil] at hfilter
      exact List.nodup_iff_sublist.mp hnodup r hfilter
    refine ⟨hnil, (obtains_iff hlimit hcut e).mp ⟨got, hobtains, ?_⟩⟩
    exact hgot.trans (hunion hnil).symm
  · rintro ⟨hnil, hcovers⟩
    obtain ⟨got, hobtains, hgot⟩ := (obtains_iff hlimit hcut e).mpr hcovers
    exact ⟨got, hobtains, hgot.trans (hunion hnil)⟩

end Keys

end MergedPages
