/-
The status messages.  They are configured by symbol, and the API is asked for each
symbol on its own; but as of an updatable collection every answer empties the
temporary table before its rows are inserted.
-/
import ReportsFramework.UpdatableColls

namespace ReportsFramework

open Sql

variable {Coll ρ κ : Type*}

/-- A configured symbol, with its earliest start. -/
structure PublicCollConf where
  symbol : String
  start : ℤ

/-- The steps of one symbol that are to be synchronised. -/
structure SyncUserStepData where
  symbol : String
  baseStart : Option ℤ
  currStart : Option ℤ
  isBaseStepReady : Bool
  isCurrStepReady : Bool

/-- What the checker pushes to `START`, one entry for each configured symbol.  What is
known of the last sync is asked for the symbol, though the stored steps are shared by
all symbols of the collection. -/
def checkNewConfigurablePublicData
    (getLastSyncedInfoForCurrColl : PublicCollConf → SyncUserStepData)
    (publicCollsConf : List PublicCollConf) : List SyncUserStepData :=
  publicCollsConf.map fun conf =>
    let syncUserStepData :=
      { getLastSyncedInfoForCurrColl conf with symbol := conf.symbol }
    if !syncUserStepData.isBaseStepReady || !syncUserStepData.isCurrStepReady then
      syncUserStepData
    else
      { syncUserStepData with
        currStart := some conf.start
        isCurrStepReady := false }

namespace SyncTables

variable {S : CollSchema Coll ρ κ}

/-- The requests for one entry: its base step and its current step, as far as they are
not ready and have a start. -/
def updateApiData (api : String → ℤ → ApiRes ρ) (syncUserStepData : SyncUserStepData) :
    List (ApiRes ρ) :=
  (if syncUserStepData.isBaseStepReady then []
    else (syncUserStepData.baseStart.map (api syncUserStepData.symbol)).toList) ++
  (if syncUserStepData.isCurrStepReady then []
    else (syncUserStepData.currStart.map (api syncUserStepData.symbol)).toList)

/-- What the API answers for the entries, in their order. -/
def results (api : String → ℤ → ApiRes ρ) (start : List SyncUserStepData) : List (ApiRes ρ) :=
  start.flatMap (updateApiData api)

def rowsOf : ApiRes ρ → List ρ
  | .elems rows => rows
  | .isInterrupted | .error => []

/-- The answers with rows in them. -/
def nonEmpty (res : List (ApiRes ρ)) : List (List ρ) :=
  (res.map rowsOf).filter (!·.isEmpty)

/-- The requests of a run that get to the collection: those of other collections come
before and behind. -/
def requestsAround (coll : Coll) (res : List (ApiRes ρ))
    (before behind : List (Coll × ApiRes ρ)) : List (Coll × ApiRes ρ) :=
  before ++ res.map (coll, ·) ++ behind

variable [DecidableEq Coll] [DecidableEq κ]

/-- Once a run has moved its data, the table of the collection holds the union of what
the API returned: every row, but for those that a later one of the same unique key
replaces. -/
def HoldsUnion (db : SyncTables S) (methodCollMap : List Coll) (coll : Coll)
    (res : List (ApiRes ρ)) (before behind : List (Coll × ApiRes ρ)) (isMoved : Bool) : Prop :=
  let after := db.insertNewPublicDataToDb methodCollMap
    (requestsAround coll res before behind) isMoved
  after.2 = true → (after.1.main coll).contents.Perm
    (Table.latest (S.key coll) (res.flatMap rowsOf))

omit [DecidableEq Coll] in
/-- The last answer with rows has one for every key answered before it; without any
such answer, no rows are left over from an earlier attempt of the job. -/
def LastHoldsAll (db : SyncTables S) (coll : Coll) (res : List (ApiRes ρ)) : Prop :=
  match (nonEmpty res).getLast? with
  | some last => ∀ r ∈ (nonEmpty res).dropLast.flatten,
      ∃ r' ∈ last, Conflicts (S.key coll) r r'
  | none => ((db.temp coll).getD .empty).contents = []

omit [DecidableEq κ] in
theorem answers_append (coll : Coll) (requests requests' : List (Coll × ApiRes ρ)) :
    answers coll (requests ++ requests') = answers coll requests ++ answers coll requests' := by
  induction requests with
  | nil => rfl
  | cons request rest ih =>
      obtain ⟨coll', ⟨_ | ⟨r, rows⟩⟩ | _ | _⟩ := request
      · exact ih
      · rw [List.cons_append, answers_elems coll coll' (List.cons_ne_nil _ _),
          answers_elems coll coll' (List.cons_ne_nil _ _), ih]
        split_ifs
        · rfl
        · rfl
      · exact ih
      · exact ih

omit [DecidableEq κ] in
theorem answers_of_others {coll : Coll} {requests : List (Coll × ApiRes ρ)}
    (h : ∀ request ∈ requests, request.1 ≠ coll) : answers coll requests = [] := by
  induction requests with
  | nil => rfl
  | cons request rest ih =>
      obtain ⟨hfirst, hrest⟩ := List.forall_mem_cons.mp h
      obtain ⟨coll', ⟨_ | ⟨r, rows⟩⟩ | _ | _⟩ := request
      · exact ih hrest
      · rw [answers_elems coll coll' (List.cons_ne_nil _ _), if_neg hfirst]
        exact ih hrest
      · exact ih hrest
      · exact ih hrest

omit [DecidableEq κ] in
theorem answers_map (coll : Coll) (res : List (ApiRes ρ)) :
    answers coll (res.map (coll, ·)) = nonEmpty res := by
  induction res with
  | nil => rfl
  | cons first rest ih =>
      obtain ⟨_ | ⟨r, rows⟩⟩ | _ | _ := first
      · exact ih
      · rw [List.map_cons, answers_elems coll coll (List.cons_ne_nil _ _), if_pos rfl, ih]
        rfl
      · exact ih
      · exact ih

omit [DecidableEq κ] in
theorem answers_requestsAround {coll : Coll} (res : List (ApiRes ρ))
    {before behind : List (Coll × ApiRes ρ)} (hbefore : ∀ request ∈ before, request.1 ≠ coll)
    (hbehind : ∀ request ∈ behind, request.1 ≠ coll) :
    answers coll (requestsAround coll res before behind) = nonEmpty res := by
  unfold requestsAround
  rw [answers_append, answers_append, answers_of_others hbefore, answers_of_others hbehind,
    answers_map, List.nil_append, List.append_nil]

theorem flatten_nonEmpty (res : List (ApiRes ρ)) :
    (nonEmpty res).flatten = res.flatMap rowsOf := by
  unfold nonEmpty
  rw [List.flatMap_def]
  induction res.map rowsOf with
  | nil => rfl
  | cons rows rest ih =>
      cases rows with
      | nil => exact ih
      | cons r rows => rw [List.filter_cons_of_pos rfl, List.flatten_cons, List.flatten_cons, ih]

/-- The status messages of all configured symbols are there after a sync exactly if
the last symbol with any has a row for each key of the others. -/
theorem holdsUnion_iff (db : SyncTables S) {methodCollMap : List Coll} {coll : Coll}
    (hcoll : S.isUpdatable coll = true) (hdue : coll ∈ methodCollMap)
    (api : String → ℤ → ApiRes ρ)
    (getLastSyncedInfoForCurrColl : PublicCollConf → SyncUserStepData)
    (publicCollsConf : List PublicCollConf) {before behind : List (Coll × ApiRes ρ)}
    (hbefore : ∀ request ∈ before, request.1 ≠ coll)
    (hbehind : ∀ request ∈ behind, request.1 ≠ coll) (isMoved : Bool) :
    let res := results api
      (checkNewConfigurablePublicData getLastSyncedInfoForCurrColl publicCollsConf)
    HoldsUnion db methodCollMap coll res before behind isMoved ↔
      (AllAnswered db methodCollMap (requestsAround coll res before behind) →
        isMoved = true → LastHoldsAll db coll res) := by
  intro res
  by_cases hrun : AllAnswered db methodCollMap (requestsAround coll res before behind) ∧
      isMoved = true
  · obtain ⟨hdone, rfl⟩ := hrun
    have hmain := contents_of_moved hcoll hdone
    have hmoved := congrArg Prod.snd (insertNewPublicDataToDb_of_moved hdone rfl)
    rw [answers_requestsAround res hbefore hbehind] at hmain
    simp only [HoldsUnion, LastHoldsAll, hmoved, hdone, hmain, forall_const,
      ← flatten_nonEmpty res]
    cases hlast : (nonEmpty res).getLast? with
    | none =>
        rw [List.getLast?_eq_none_iff.mp hlast]
        simp [createTempDBStructureForCurrSync, hdue, Table.latest]
    | some last =>
        simp only [flatten_of_getLast? hlast]
        rw [List.perm_comm]
        exact Table.latest_append_perm
  · obtain ⟨hend, _⟩ := insertNewPublicDataToDb_of_not hrun
    have hleft : HoldsUnion db methodCollMap coll res before behind isMoved := by
      intro hmoved
      rw [hend] at hmoved
      cases hmoved
    exact iff_of_true hleft fun hdone hmoved => absurd ⟨hdone, hmoved⟩ hrun

namespace StatusMessagesWitness

def schema : CollSchema Unit String String where
  key _ row := some row
  isUpdatable _ := true

def empty : SyncTables schema where
  main _ := Table.empty
  temp _ := none

/-- The API has one status message for each symbol. -/
def api (symbol : String) (_ : ℤ) : ApiRes String := .elems [symbol]

/-- Nothing has been synchronised yet. -/
def getLastSyncedInfoForCurrColl (conf : PublicCollConf) : SyncUserStepData :=
  ⟨conf.symbol, some conf.start, none, false, false⟩

def confs : List PublicCollConf := [⟨"tBTCF0:USTF0", 5⟩, ⟨"tETHF0:USTF0", 7⟩]

/-- Two symbols are configured, and the status message of the first is lost. -/
theorem first_symbol_is_lost :
    ¬ HoldsUnion empty [()] () (results api
      (checkNewConfigurablePublicData getLastSyncedInfoForCurrColl confs)) [] [] true := by
  intro h
  have hlength := (h (by decide)).length_eq
  revert hlength
  decide

theorem holdsUnion_iff_of_one :
    (schema.isUpdatable () = true ∧ () ∈ [()]) ∧
      HoldsUnion empty [()] () (results api (checkNewConfigurablePublicData
        getLastSyncedInfoForCurrColl [⟨"tBTCF0:USTF0", 5⟩])) [] [] true :=
  ⟨⟨rfl, .head _⟩,
    (holdsUnion_iff empty rfl (.head _) api getLastSyncedInfoForCurrColl
      [⟨"tBTCF0:USTF0", 5⟩] (by simp) (by simp) true).mpr fun _ _ => by
        intro r hr
        cases hr⟩

end StatusMessagesWitness

end SyncTables

end ReportsFramework
