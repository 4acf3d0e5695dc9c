/-
The merge of report series is an outer join by timestamp, and the calculation function is
called once for each merged item.
-/
import ReportsFramework.CalcGroupedData
import ReportsFramework.FrameAlignment

namespace ReportsFramework

namespace CalcGroupedData

variable {κ : Type*} {V : κ → Type*} {ρ σ : Type*}

/-- An entry of a series as it is given; `none` stands for no vals, or for an object
without keys. -/
abbrev Series (V : κ → Type*) := ∀ key, List (GroupItem (Option (V key)))

/-- What the calculation function is given: the merged item, its index, the merged list
and the results so far.  It may keep a state from call to call; `none` stands for no
result, or for an object without keys. -/
abbrev CalcDataItem (V : κ → Type*) (ρ σ : Type*) :=
  σ → MergedItem V → ℕ → List (MergedItem V) → List (GroupItem ρ) → Option ρ × σ

def getDataKeys (keys : List κ) (data : Series V) : List κ :=
  keys.filter fun key => !(data key).isEmpty

def getMaxLength (dataKeys : List κ) (data : Series V) : ℕ :=
  (dataKeys.map fun key => (data key).length).max?.getD 0

section Definitions

variable [DecidableEq κ]

/-- An entry without vals is passed by. -/
def placeEntry (key : κ) (entry : Option (GroupItem (Option (V key))))
    (res : List (MergedItem V)) : List (MergedItem V) :=
  match entry with
  | some ⟨mts, some vals⟩ => place key ⟨mts, vals⟩ res
  | _ => res

/-- `_mergeData`: the first entries of all the series, then the second, and so on. -/
def mergeData (keys : List κ) (data : Series V) : List (MergedItem V) :=
  let dataKeys := getDataKeys keys data
  (List.range (getMaxLength dataKeys data)).foldl (fun res i =>
    dataKeys.foldl (fun res key => placeEntry key (data key)[i]? res) res) []

end Definitions

/-- The results are in the order of the merged list whatever the order of the calls; the
form that `isSubCalc` gives to a result is left out. -/
def reducer (isReverse : Bool) (calcDataItem : CalcDataItem V ρ σ) (arr : List (MergedItem V))
    (accum : List (GroupItem ρ) × σ) (item : MergedItem V) (i : ℕ) : List (GroupItem ρ) × σ :=
  let (res, state) := calcDataItem accum.2 item i arr accum.1
  match res with
  | none => (accum.1, state)
  | some res =>
      if isReverse then (⟨item.mts, res⟩ :: accum.1, state)
      else (accum.1 ++ [⟨item.mts, res⟩], state)

def calcGroupedData [DecidableEq κ] (keys : List κ) (data : Series V)
    (calcDataItem : CalcDataItem V ρ σ) (isReverse : Bool) (state : σ) : List (GroupItem ρ) × σ :=
  let data := mergeData keys data
  if isReverse then
    data.zipIdx.foldr (fun item accum => reducer isReverse calcDataItem data accum item.1 item.2)
      ([], state)
  else
    data.zipIdx.foldl (fun accum item => reducer isReverse calcDataItem data accum item.1 item.2)
      ([], state)

/-- The function that also writes down the items it is called with. -/
def recorded (calcDataItem : CalcDataItem V ρ σ) : CalcDataItem V ρ (σ × List (MergedItem V)) :=
  fun state item i arr accum =>
    let (res, next) := calcDataItem state.1 item i arr accum
    (res, next, state.2 ++ [item])

section Join

variable [DecidableEq κ] {keys : List κ} {data : Series V}

/-- The entries with vals, in the order they are placed. -/
def placedItems (keys : List κ) (data : Series V) : List (Σ key, GroupItem (V key)) :=
  let dataKeys := getDataKeys keys data
  (List.range (getMaxLength dataKeys data)).flatMap fun i => dataKeys.filterMap fun key =>
    (data key)[i]?.bind fun entry => entry.vals.map fun vals => ⟨key, entry.mts, vals⟩

theorem foldl_placeEntry (i : ℕ) (dataKeys : List κ) (data : Series V)
    (res : List (MergedItem V)) :
    dataKeys.foldl (fun res key => placeEntry key (data key)[i]? res) res =
      (dataKeys.filterMap fun key => (data key)[i]?.bind fun entry =>
        entry.vals.map fun vals => (⟨key, entry.mts, vals⟩ : Σ key, GroupItem (V key))).foldl
          (fun res item => place item.1 item.2 res) res := by
  induction dataKeys generalizing res with
  | nil => rfl
  | cons key rest ih =>
    rw [List.foldl_cons, ih]
    rcases hentry : (data key)[i]? with _ | ⟨mts, _ | vals⟩
    · rw [List.filterMap_cons_none (by simp [hentry])]
      rfl
    · rw [List.filterMap_cons_none (by simp [hentry])]
      rfl
    · rw [List.filterMap_cons_some (b := ⟨key, mts, vals⟩) (by simp [hentry])]
      rfl

theorem mergeData_eq_foldl (keys : List κ) (data : Series V) :
    mergeData keys data =
      (placedItems keys data).foldl (fun res item => place item.1 item.2 res) [] := by
  rw [mergeData, placedItems, List.foldl_flatMap]
  simp only [foldl_placeEntry]

omit [DecidableEq κ] in
theorem mem_placedItems {key : κ} {item : GroupItem (V key)} :
    (⟨key, item⟩ : Σ key, GroupItem (V key)) ∈ placedItems keys data ↔
      key ∈ keys ∧ ⟨item.mts, some item.vals⟩ ∈ data key := by
  obtain ⟨mts, vals⟩ := item
  simp only [placedItems, List.mem_flatMap, List.mem_range, List.mem_filterMap,
    Option.bind_eq_some_iff, Option.map_eq_some_iff]
  constructor
  · rintro ⟨i, _, key', hkey, ⟨mts', vals'⟩, hget, vals'', hvals, heq⟩
    cases heq
    cases hvals
    exact ⟨(List.mem_filter.mp hkey).1, List.mem_of_getElem? hget⟩
  · rintro ⟨hkey, hentry⟩
    obtain ⟨i, hi, hget⟩ := List.getElem_of_mem hentry
    have hdataKey : key ∈ getDataKeys keys data := by
      apply List.mem_filter.mpr
      exact ⟨hkey, by simpa using List.ne_nil_of_mem hentry⟩
    refine ⟨i, ?_, key, hdataKey, ⟨mts, some vals⟩, ?_, vals, rfl, rfl⟩
    · exact Nat.lt_of_lt_of_le hi
        (List.le_max?_getD_of_mem (List.mem_map_of_mem hdataKey))
    · rw [List.getElem?_eq_getElem hi, hget]

/-- The entries with vals have timestamps of their own. -/
def DistinctMts (keys : List κ) (data : Series V) : Prop :=
  ∀ key ∈ keys, (((data key).filter fun entry => entry.vals.isSome).map GroupItem.mts).Nodup

theorem merged_mergeData (hdistinct : DistinctMts keys data) :
    Merged (placedItems keys data) (mergeData keys data) := by
  rw [mergeData_eq_foldl]
  apply merged_foldl
  intro key mts vals vals' hvals hvals'
  obtain ⟨hkey, hvals⟩ := mem_placedItems.mp hvals
  have hvals' := (mem_placedItems.mp hvals').2
  have heq := List.inj_on_of_nodup_map (hdistinct key hkey)
    (List.mem_filter.mpr ⟨hvals, rfl⟩) (List.mem_filter.mpr ⟨hvals', rfl⟩) rfl
  exact Option.some.inj (congrArg GroupItem.vals heq)

omit [DecidableEq κ] in
/-- Empty series do not change the length of the longest. -/
theorem getMaxLength_getDataKeys (keys : List κ) (data : Series V) :
    getMaxLength (getDataKeys keys data) data = getMaxLength keys data := by
  have hcons : ∀ key rest, getMaxLength (key :: rest) data =
      max (data key).length (getMaxLength rest data) := by
    intro key rest
    rw [getMaxLength, getMaxLength, List.map_cons, List.max?_cons]
    cases (rest.map fun key => (data key).length).max? <;> simp
  induction keys with
  | nil => rfl
  | cons key rest ih =>
    by_cases hkey : data key = []
    · rw [hcons, ← ih, hkey, getDataKeys, List.filter_cons_of_neg (by simp [hkey])]
      exact (Nat.zero_max _).symm
    · rw [hcons, ← ih, getDataKeys, List.filter_cons_of_pos (by simpa using hkey), hcons]
      rfl

/-- Series whose entries all have vals are merged as series of items. -/
theorem mergeData_map_some (keys : List κ) (data : ∀ key, List (GroupItem (V key))) :
    mergeData keys (fun key => (data key).map fun item => ⟨item.mts, some item.vals⟩) =
      ReportsFramework.mergeData keys data := by
  rw [mergeData_eq_foldl, ReportsFramework.mergeData, placedItems, getMaxLength_getDataKeys]
  congr 1
  rw [getMaxLength]
  simp only [List.length_map]
  congr 1
  funext i
  rw [getDataKeys, List.filterMap_filter]
  congr 1
  funext key
  simp only [List.getElem?_map]
  cases hitem : (data key)[i]? with
  | none => simp
  | some item =>
    have hne := List.ne_nil_of_mem (List.mem_of_getElem? hitem)
    simp [hne]

end Join

section Calls

variable [DecidableEq κ] {keys : List κ} {data : Series V}

/-- The items with their indices, in the order of the calls. -/
def callOrder (isReverse : Bool) (data : List (MergedItem V)) : List (MergedItem V × ℕ) :=
  if isReverse then data.zipIdx.reverse else data.zipIdx

omit [DecidableEq κ] in
theorem map_fst_callOrder (isReverse : Bool) (data : List (MergedItem V)) :
    (callOrder isReverse data).map Prod.fst = if isReverse then data.reverse else data := by
  cases isReverse with
  | false => exact List.zipIdx_map_fst 0 data
  | true =>
    rw [callOrder, if_pos rfl, if_pos rfl, List.map_reverse, List.zipIdx_map_fst]

theorem calcGroupedData_eq_foldl (calcDataItem : CalcDataItem V ρ σ) (isReverse : Bool)
    (state : σ) :
    calcGroupedData keys data calcDataItem isReverse state =
      (callOrder isReverse (mergeData keys data)).foldl (fun accum item =>
        reducer isReverse calcDataItem (mergeData keys data) accum item.1 item.2)
          ([], state) := by
  cases isReverse with
  | false => rfl
  | true =>
    rw [callOrder, if_pos rfl, List.foldl_reverse]
    rfl

omit [DecidableEq κ] in
theorem reducer_recorded (isReverse : Bool) (calcDataItem : CalcDataItem V ρ σ)
    (arr : List (MergedItem V)) (accum : List (GroupItem ρ) × σ) (log : List (MergedItem V))
    (item : MergedItem V) (i : ℕ) :
    reducer isReverse (recorded calcDataItem) arr (accum.1, accum.2, log) item i =
      ((reducer isReverse calcDataItem arr accum item i).1,
        (reducer isReverse calcDataItem arr accum item i).2, log ++ [item]) := by
  rw [reducer, reducer, recorded]
  dsimp only
  cases (calcDataItem accum.2 item i arr accum.1).1 with
  | none => rfl
  | some res => cases isReverse <;> rfl

omit [DecidableEq κ] in
theorem foldl_recorded (isReverse : Bool) (calcDataItem : CalcDataItem V ρ σ)
    (arr : List (MergedItem V)) (calls : List (MergedItem V × ℕ))
    (accum : List (GroupItem ρ) × σ) (log : List (MergedItem V)) :
    calls.foldl (fun accum item => reducer isReverse (recorded calcDataItem) arr accum
        item.1 item.2) (accum.1, accum.2, log) =
      ((calls.foldl (fun accum item => reducer isReverse calcDataItem arr accum
          item.1 item.2) accum).1,
        (calls.foldl (fun accum item => reducer isReverse calcDataItem arr accum
          item.1 item.2) accum).2, log ++ calls.map Prod.fst) := by
  induction calls generalizing accum log with
  | nil => rw [List.map_nil, List.append_nil]; rfl
  | cons call rest ih =>
    rw [List.foldl_cons, List.foldl_cons, reducer_recorded, ih, List.map_cons,
      List.append_assoc, List.singleton_append]

omit [DecidableEq κ] in
theorem map_mts_reducer (isReverse : Bool) (calcDataItem : CalcDataItem V ρ σ)
    (arr : List (MergedItem V)) (accum : List (GroupItem ρ) × σ) (item : MergedItem V) (i : ℕ) :
    (reducer isReverse calcDataItem arr accum item i).1.map GroupItem.mts =
      if isReverse then
        ((calcDataItem accum.2 item i arr accum.1).1.map fun _ => item.mts).toList ++
          accum.1.map GroupItem.mts
      else accum.1.map GroupItem.mts ++
        ((calcDataItem accum.2 item i arr accum.1).1.map fun _ => item.mts).toList := by
  unfold reducer
  rcases calcDataItem accum.2 item i arr accum.1 with ⟨_ | res, state⟩
  · cases isReverse <;> simp
  · cases isReverse <;> simp

omit [DecidableEq κ] in
/-- The results have timestamps of the calls, and all of them where no result is empty. -/
theorem exists_stamps (isReverse : Bool) (calcDataItem : CalcDataItem V ρ σ)
    (arr : List (MergedItem V)) (calls : List (MergedItem V × ℕ))
    (accum : List (GroupItem ρ) × σ) :
    ∃ stamps, stamps.Sublist ((calls.map Prod.fst).map MergedItem.mts) ∧
      ((∀ state item i arr accum, (calcDataItem state item i arr accum).1.isSome) →
        stamps = (calls.map Prod.fst).map MergedItem.mts) ∧
      (calls.foldl (fun accum item => reducer isReverse calcDataItem arr accum
          item.1 item.2) accum).1.map GroupItem.mts =
        if isReverse then stamps.reverse ++ accum.1.map GroupItem.mts
        else accum.1.map GroupItem.mts ++ stamps := by
  induction calls generalizing accum with
  | nil => exact ⟨[], .slnil, fun _ => rfl, by cases isReverse <;> simp⟩
  | cons call rest ih =>
    obtain ⟨stamps, hsublist, hall, heq⟩ :=
      ih (reducer isReverse calcDataItem arr accum call.1 call.2)
    rw [List.foldl_cons, heq, map_mts_reducer]
    cases hres : (calcDataItem accum.2 call.1 call.2 arr accum.1).1 with
    | none =>
      refine ⟨stamps, .cons _ hsublist, ?_, ?_⟩
      · intro hsome
        have := hsome accum.2 call.1 call.2 arr accum.1
        rw [hres] at this
        cases this
      · cases isReverse <;> simp
    | some res =>
      refine ⟨call.1.mts :: stamps, .cons_cons _ hsublist, ?_, ?_⟩
      · intro hsome
        rw [hall hsome]
        rfl
      · cases isReverse <;> simp

/-- Laid in the order of the merged list. -/
theorem exists_stamps_calcGroupedData (keys : List κ) (data : Series V)
    (calcDataItem : CalcDataItem V ρ σ) (isReverse : Bool) (state : σ) :
    ((calcGroupedData keys data calcDataItem isReverse state).1.map GroupItem.mts).Sublist
        ((mergeData keys data).map MergedItem.mts) ∧
      ((∀ state item i arr accum, (calcDataItem state item i arr accum).1.isSome) →
        (calcGroupedData keys data calcDataItem isReverse state).1.map GroupItem.mts =
          (mergeData keys data).map MergedItem.mts) := by
  obtain ⟨stamps, hsublist, hall, heq⟩ := exists_stamps isReverse calcDataItem
    (mergeData keys data) (callOrder isReverse (mergeData keys data)) ([], state)
  rw [calcGroupedData_eq_foldl, heq]
  rw [map_fst_callOrder] at hsublist hall
  cases isReverse with
  | false => exact ⟨hsublist, hall⟩
  | true =>
    simp only [if_true, List.map_nil, List.append_nil, List.map_reverse] at hsublist hall ⊢
    constructor
    · exact List.reverse_sublist.mp (by rwa [List.reverse_reverse])
    · intro hsome
      rw [hall hsome, List.reverse_reverse]

/-- The series are joined by timestamp: the merged list decreases strictly, it has the
timestamps of all the series and no others, and each item has the vals of the series that
have its timestamp.  The calculation function is called with each item once, from the
oldest on if `isReverse` is set, else from the newest on. -/
theorem calcGroupedData_outerJoin (keys : List κ) (data : Series V)
    (hdistinct : DistinctMts keys data) (calcDataItem : CalcDataItem V ρ σ) (isReverse : Bool)
    (state : σ) :
    ((mergeData keys data).Pairwise fun item item' => item.mts > item'.mts) ∧
      (∀ m, m ∈ (mergeData keys data).map MergedItem.mts ↔
        ∃ key ∈ keys, ∃ vals, ⟨m, some vals⟩ ∈ data key) ∧
      (∀ item ∈ mergeData keys data, ∀ key vals,
        item.vals key = some vals ↔ key ∈ keys ∧ ⟨item.mts, some vals⟩ ∈ data key) ∧
      calcGroupedData keys data (recorded calcDataItem) isReverse (state, []) =
        ((calcGroupedData keys data calcDataItem isReverse state).1,
          (calcGroupedData keys data calcDataItem isReverse state).2,
          if isReverse then (mergeData keys data).reverse else mergeData keys data) ∧
      ((calcGroupedData keys data calcDataItem isReverse state).1.map GroupItem.mts).Sublist
        ((mergeData keys data).map MergedItem.mts) ∧
      ((∀ state item i arr accum, (calcDataItem state item i arr accum).1.isSome) →
        (calcGroupedData keys data calcDataItem isReverse state).1.map GroupItem.mts =
          (mergeData keys data).map MergedItem.mts) := by
  have hmerged := merged_mergeData hdistinct
  refine ⟨hmerged.pairwise, ?_, ?_, ?_, ?_, ?_⟩
  · intro m
    rw [hmerged.mem_mts m]
    constructor
    · rintro ⟨⟨key, item⟩, hitem, rfl⟩
      obtain ⟨hkey, hentry⟩ := mem_placedItems.mp hitem
      exact ⟨key, hkey, item.vals, hentry⟩
    · rintro ⟨key, hkey, vals, hentry⟩
      exact ⟨⟨key, m, vals⟩, mem_placedItems.mpr ⟨hkey, hentry⟩, rfl⟩
  · intro item hitem key vals
    rw [hmerged.vals_eq item hitem]
    exact mem_placedItems
  · rw [calcGroupedData_eq_foldl, calcGroupedData_eq_foldl, ← map_fst_callOrder isReverse]
    exact foldl_recorded isReverse calcDataItem _ _ ([], state) []
  · exact (exists_stamps_calcGroupedData keys data calcDataItem isReverse state).1
  · exact (exists_stamps_calcGroupedData keys data calcDataItem isReverse state).2

end Calls

section Runs

variable {α : Type*}

/-- The answers to a list, of a function that keeps a state and is told which call is the
first. -/
def runFrames (step : Bool → σ → α → ρ × σ) : Bool → σ → List α → List ρ × σ
  | _, state, [] => ([], state)
  | isFirst, state, item :: rest =>
      let (res, state) := step isFirst state item
      let (results, state) := runFrames step false state rest
      (res :: results, state)

theorem runFrames_append (step : Bool → σ → α → ρ × σ) (isFirst : Bool) (state : σ)
    (earlier later : List α) :
    runFrames step isFirst state (earlier ++ later) =
      let run := runFrames step isFirst state earlier
      let next := runFrames step (isFirst && earlier.isEmpty) run.2 later
      (run.1 ++ next.1, next.2) := by
  induction earlier generalizing isFirst state with
  | nil => simp [runFrames]
  | cons first rest ih =>
    have hrest := ih false (step isFirst state first).2
    rw [Bool.false_and] at hrest
    simp only [List.cons_append, runFrames, hrest, List.isEmpty_cons, Bool.and_false]

theorem length_runFrames (step : Bool → σ → α → ρ × σ) (isFirst : Bool) (state : σ)
    (items : List α) : (runFrames step isFirst state items).1.length = items.length := by
  induction items generalizing isFirst state with
  | nil => rfl
  | cons item rest ih =>
    rw [runFrames, List.length_cons, List.length_cons, ih]

theorem runFrames_map {β τ : Type*} (step : Bool → σ → β → ρ × σ) (f : α → β) (g : ρ → τ)
    (isFirst : Bool) (state : σ) (items : List α) :
    runFrames (fun isFirst state item =>
        (g (step isFirst state (f item)).1, (step isFirst state (f item)).2)) isFirst state items =
      ((runFrames step isFirst state (items.map f)).1.map g,
        (runFrames step isFirst state (items.map f)).2) := by
  induction items generalizing isFirst state with
  | nil => rfl
  | cons item rest ih => simp only [List.map_cons, runFrames, ih]

/-- A function that tells the first call by its index, and makes nothing of the other
arguments. -/
def fromOldest (step : Bool → σ → MergedItem V × ℕ → Option ρ × σ) : CalcDataItem V ρ σ :=
  fun state item i arr _ => step (i + 1 = arr.length) state (item, i)

/-- The results that are not empty, with the timestamps of the items. -/
def stamped (items : List (MergedItem V)) (results : List (Option ρ)) : List (GroupItem ρ) :=
  reported (List.zipWith (fun item res => (item.mts, res)) items results)

theorem reducer_fromOldest (step : Bool → σ → MergedItem V × ℕ → Option ρ × σ)
    (arr : List (MergedItem V)) (accum : List (GroupItem ρ) × σ) (item : MergedItem V) (i : ℕ) :
    reducer true (fromOldest step) arr accum item i =
      (((step (i + 1 = arr.length) accum.2 (item, i)).1.map fun res => ⟨item.mts, res⟩).toList ++
        accum.1, (step (i + 1 = arr.length) accum.2 (item, i)).2) := by
  rw [reducer, fromOldest]
  rcases step (i + 1 = arr.length) accum.2 (item, i) with ⟨_ | res, state⟩
  · rfl
  · rfl

theorem foldl_fromOldest (step : Bool → σ → MergedItem V × ℕ → Option ρ × σ)
    (arr data : List (MergedItem V)) (hlength : data.length ≤ arr.length)
    (accum : List (GroupItem ρ) × σ) :
    data.zipIdx.reverse.foldl (fun accum item =>
        reducer true (fromOldest step) arr accum item.1 item.2) accum =
      ((stamped data.reverse
          (runFrames step (data.length = arr.length) accum.2 data.zipIdx.reverse).1).reverse ++
            accum.1,
        (runFrames step (data.length = arr.length) accum.2 data.zipIdx.reverse).2) := by
  induction data using List.reverseRecOn generalizing accum with
  | nil => rfl
  | append_singleton data item ih =>
    rw [List.length_append, List.length_singleton] at hlength
    have hrest : decide (data.length = arr.length) = false := by
      rw [decide_eq_false_iff_not]
      omega
    rw [List.zipIdx_append, List.reverse_append, List.zipIdx_singleton, List.reverse_singleton,
      List.singleton_append, List.foldl_cons, ih (by omega), hrest, runFrames, stamped, stamped,
      List.reverse_append, List.reverse_singleton, List.singleton_append,
      List.zipWith_cons_cons, reverse_reported_cons, reducer_fromOldest, Nat.zero_add,
      List.length_append, List.length_singleton]

/-- Called from the oldest item on. -/
theorem calcGroupedData_fromOldest [DecidableEq κ] (keys : List κ) (data : Series V)
    (step : Bool → σ → MergedItem V × ℕ → Option ρ × σ) (state : σ) :
    calcGroupedData keys data (fromOldest step) true state =
      ((stamped (mergeData keys data).reverse
          (runFrames step true state (mergeData keys data).zipIdx.reverse).1).reverse,
        (runFrames step true state (mergeData keys data).zipIdx.reverse).2) := by
  have hrun := foldl_fromOldest step (mergeData keys data) (mergeData keys data) (Nat.le_refl _)
    ([], state)
  rw [decide_eq_true rfl, List.append_nil] at hrun
  rw [calcGroupedData_eq_foldl]
  exact hrun

/-- Where no result is empty, each item has its result. -/
theorem stamped_map_some (items : List (MergedItem V)) (results : List ρ) :
    stamped items (results.map some) =
      List.zipWith (fun item res => ⟨item.mts, res⟩) items results := by
  induction items generalizing results with
  | nil => rfl
  | cons item rest ih =>
    cases results with
    | nil => rfl
    | cons res results =>
      rw [List.map_cons, List.zipWith_cons_cons, ← ih]
      rfl

/-- A function of each item alone that answers every call. -/
theorem calcGroupedData_fromOldest_some [DecidableEq κ] {β : Type*} (keys : List κ)
    (data : Series V) (step : Bool → σ → β → ρ × σ) (f : MergedItem V → β) (state : σ) :
    (calcGroupedData keys data (fromOldest fun isFirst state item =>
        (some (step isFirst state (f item.1)).1, (step isFirst state (f item.1)).2)) true state).1 =
      (List.zipWith (fun item res => ⟨item.mts, res⟩) (mergeData keys data).reverse
        (runFrames step true state ((mergeData keys data).reverse.map f)).1).reverse := by
  have hrun := runFrames_map step (fun item : MergedItem V × ℕ => f item.1) some true state
    (mergeData keys data).zipIdx.reverse
  have hframes : (mergeData keys data).zipIdx.reverse.map (fun item => f item.1) =
      (mergeData keys data).reverse.map f := by
    rw [← List.zipIdx_map_fst 0 (mergeData keys data), ← List.map_reverse, List.map_map]
    simp only [List.zipIdx_map_fst]
    rfl
  rw [calcGroupedData_fromOldest, hrun, hframes]
  dsimp only
  rw [stamped_map_some]

end Runs

namespace JoinWitness

/-- Two series with one timestamp in common, an entry without vals in the second. -/
def series : Series fun _ : Bool => ℕ
  | false => [⟨30, some 3⟩, ⟨10, some 1⟩]
  | true => [⟨30, some 4⟩, ⟨20, none⟩, ⟨15, some 2⟩]

/-- The vals of both series. -/
def both : CalcDataItem (fun _ : Bool => ℕ) (Option ℕ × Option ℕ) Unit :=
  fun _ item _ _ _ => (some (item.vals false, item.vals true), ())

theorem calcGroupedData_outerJoin_series :
    (calcGroupedData [false, true] series both true ()).1 =
        [⟨30, some 3, some 4⟩, ⟨15, none, some 2⟩, ⟨10, some 1, none⟩] ∧
      (calcGroupedData [false, true] series both true ()).1.map GroupItem.mts =
        (mergeData [false, true] series).map MergedItem.mts := by
  have hdistinct : DistinctMts [false, true] series := by
    unfold DistinctMts
    decide
  have hjoin := calcGroupedData_outerJoin [false, true] series hdistinct both true ()
  exact ⟨by decide, hjoin.2.2.2.2.2 fun _ _ _ _ _ => rfl⟩

end JoinWitness

end CalcGroupedData

end ReportsFramework
