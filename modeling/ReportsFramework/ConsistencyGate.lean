/-
The gate in front of the reports.  A report is built only if the steps of the
collections it reads are all ready and were synchronised at about the same time; the
rows of a sub-account are those of all its sub-users, looked at together.
-/
import Mathlib.Algebra.Order.Group.Abs
import Mathlib.Algebra.Order.Group.Int
import Mathlib.Algebra.Order.Group.Unbundled.Int
import Mathlib.Data.List.Nodup
import Mathlib.Tactic.SplitIfs

namespace ReportsFramework

namespace ConsistencyGate

/-- A row of the sync steps. -/
structure StepRow where
  _id : ℕ
  collName : String
  syncedAt : Option ℤ
  isBaseStepReady : Bool
  subUserId : Option ℤ
  user_id : Option ℤ
deriving DecidableEq

structure StepsTable where
  rows : List StepRow
  /-- `_id` is the primary key, counted from 1. -/
  positive : ∀ row ∈ rows, row._id ≠ 0
  distinct : (rows.map (·._id)).Nodup

/-- Who asks.  A sub-account has the ids of its sub-users. -/
structure Auth where
  _id : ℤ
  isSubAccount : Bool
  subUsers : List ℤ

/-- An item of a schema in an array: a name, or a name with its allowed difference
if that is an integer, or something else. -/
inductive SchemaItem
  | name (collName : String)
  | withProps (collName : String) (allowedDiffInMs : Option ℤ)
  | malformed

/-- The schema of the required collections. -/
inductive Schema
  | missing
  | array (items : List SchemaItem)
  | object (entries : List (String × Option ℤ))

/-- A node has no name where the item is malformed. -/
structure SchemaNode where
  collName : Option String
  allowedDiffInMs : Option ℤ

def getSchemaNodes : Schema → List SchemaNode
  | .missing => []
  | .array items => items.map fun
      | .name collName => ⟨some collName, none⟩
      | .withProps collName allowedDiffInMs => ⟨some collName, allowedDiffInMs⟩
      | .malformed => ⟨none, none⟩
  | .object entries => entries.map fun (collName, allowedDiffInMs) =>
      ⟨some collName, allowedDiffInMs⟩

variable (table : StepsTable) (userId : ℤ)

/-- The API method of the candles. -/
def candles : String := "_getCandles"

/-- The rows of the user and the shared ones; candles belong to a user. -/
def getCompletedCollsBy : List StepRow :=
  (table.rows.filter fun row => row.user_id = some userId || row.user_id.isNone).filter
    fun row => row.collName ≠ candles || row.user_id.isSome

def isNodeOf (row : StepRow) (node : SchemaNode) : Bool :=
  node.collName = some row.collName

/-- The ready steps of all required collections. -/
def completedCollsForAllNodes (nodes : List SchemaNode) : List StepRow :=
  (getCompletedCollsBy table userId).filter fun row =>
    row.isBaseStepReady && nodes.any (isNodeOf row)

/-- A step against another one: the same row, or synchronised within the time. -/
def isNear (allowedDiffInMs : ℤ) (row other : StepRow) : Bool :=
  (other._id ≠ 0 && row._id = other._id) ||
    match other.syncedAt, row.syncedAt with
    | some syncedAt, some syncedAt' => |syncedAt' - syncedAt| ≤ allowedDiffInMs
    | _, _ => false

/-- One turn of the loop over the nodes. -/
def isNodeOk (commonAllowedDiffInMs : Option ℤ) (rows : List StepRow) (node : SchemaNode) :
    Bool :=
  match node.allowedDiffInMs.or commonAllowedDiffInMs with
  | none => false
  | some allowedDiffInMs =>
      let completedCollsForCurrNode := rows.filter (isNodeOf · node)
      !completedCollsForCurrNode.isEmpty &&
        completedCollsForCurrNode.all fun row => rows.all (isNear allowedDiffInMs row)

def haveCollsBeenSyncedUpToDate (schema : Schema) (commonAllowedDiffInMs : Option ℤ) : Bool :=
  let completedColls := getCompletedCollsBy table userId
  let schemaNodes := getSchemaNodes schema
  if completedColls.isEmpty || schemaNodes.isEmpty then false
  else
    schemaNodes.all
      (isNodeOk commonAllowedDiffInMs (completedCollsForAllNodes table userId schemaNodes))

section Meaning

variable (auth : Auth) (nodes : List SchemaNode) (commonAllowedDiffInMs : Option ℤ)

/-- A step of a sub-user is its own, or one that all users share. -/
def IsStepOf (subUserId : ℤ) (row : StepRow) : Prop :=
  row.user_id = none ∨ row.subUserId = some subUserId

/-- Each required collection has a ready step, of each sub-user if it is for a
sub-account. -/
def AllReady : Prop :=
  ∀ node ∈ nodes,
    if auth.isSubAccount then
      ∀ subUserId ∈ auth.subUsers, ∃ row ∈ completedCollsForAllNodes table auth._id nodes,
        isNodeOf row node = true ∧ IsStepOf subUserId row
    else
      ∃ row ∈ completedCollsForAllNodes table auth._id nodes, isNodeOf row node = true

/-- Two steps were synchronised within the time. -/
def WithinTime (allowedDiffInMs : ℤ) (row other : StepRow) : Prop :=
  ∃ syncedAt syncedAt', row.syncedAt = some syncedAt ∧ other.syncedAt = some syncedAt' ∧
    |syncedAt - syncedAt'| ≤ allowedDiffInMs

/-- The steps of a required collection are near to all required steps. -/
def NodeNear (node : SchemaNode) : Prop :=
  ∃ allowedDiffInMs, node.allowedDiffInMs.or commonAllowedDiffInMs = some allowedDiffInMs ∧
    ∀ row ∈ completedCollsForAllNodes table auth._id nodes, isNodeOf row node = true →
      ∀ other ∈ completedCollsForAllNodes table auth._id nodes, row ≠ other →
        WithinTime allowedDiffInMs row other

def AllNear : Prop :=
  ∀ node ∈ nodes, NodeNear table auth nodes commonAllowedDiffInMs node

/-- There are required collections, each has some ready step, and they are near. -/
def Comparable : Prop :=
  nodes ≠ [] ∧
    (∀ node ∈ nodes, ∃ row ∈ completedCollsForAllNodes table auth._id nodes,
      isNodeOf row node = true) ∧
    AllNear table auth nodes commonAllowedDiffInMs

/-- The ready steps of a collection, of the user and shared. -/
def readyStepsOf (collName : String) : List StepRow :=
  (getCompletedCollsBy table auth._id).filter fun row =>
    row.isBaseStepReady && row.collName = collName

/-- Where a collection is loaded for anyone it is loaded for each sub-user; unless the
times of its steps cannot be compared, with which the gate stays closed. -/
def LoadedForAll (collName : String) : Prop :=
  readyStepsOf table auth collName ≠ [] →
    (∀ row ∈ readyStepsOf table auth collName, ∀ other ∈ readyStepsOf table auth collName,
      row ≠ other → row.syncedAt.isSome) →
    ∀ subUserId ∈ auth.subUsers, ∃ row ∈ readyStepsOf table auth collName,
      IsStepOf subUserId row

end Meaning

variable {table} {auth : Auth}

theorem mem_rows_of_completed {nodes : List SchemaNode} {row : StepRow}
    (h : row ∈ completedCollsForAllNodes table auth._id nodes) : row ∈ table.rows := by
  have hvisible := (List.mem_filter.mp h).1
  exact (List.mem_filter.mp (List.mem_filter.mp hvisible).1).1

theorem isNear_iff {allowedDiffInMs : ℤ} {row other : StepRow} (hrow : row ∈ table.rows)
    (hother : other ∈ table.rows) :
    isNear allowedDiffInMs row other = true ↔
      row = other ∨ WithinTime allowedDiffInMs row other := by
  have hid : (other._id ≠ 0 && row._id = other._id) = true ↔ row = other := by
    rw [Bool.and_eq_true, decide_eq_true_iff, decide_eq_true_iff]
    constructor
    · rintro ⟨_, heq⟩
      exact List.inj_on_of_nodup_map table.distinct hrow hother heq
    · rintro rfl
      exact ⟨table.positive row hrow, rfl⟩
  have htime : (match other.syncedAt, row.syncedAt with
      | some syncedAt, some syncedAt' => |syncedAt' - syncedAt| ≤ allowedDiffInMs
      | _, _ => false) = true ↔ WithinTime allowedDiffInMs row other := by
    unfold WithinTime
    cases other.syncedAt with
    | none => simp
    | some syncedAt =>
        cases row.syncedAt with
        | none => simp
        | some syncedAt' => simp
  unfold isNear
  rw [Bool.or_eq_true, hid, htime]

theorem isNodeOk_iff {nodes : List SchemaNode} {commonAllowedDiffInMs : Option ℤ}
    {node : SchemaNode} :
    isNodeOk commonAllowedDiffInMs (completedCollsForAllNodes table auth._id nodes) node = true ↔
      (∃ row ∈ completedCollsForAllNodes table auth._id nodes, isNodeOf row node = true) ∧
        NodeNear table auth nodes commonAllowedDiffInMs node := by
  unfold isNodeOk NodeNear
  cases node.allowedDiffInMs.or commonAllowedDiffInMs with
  | none => simp
  | some allowedDiffInMs =>
      have hnear : (∀ row ∈ completedCollsForAllNodes table auth._id nodes,
          isNodeOf row node = true → ∀ other ∈ completedCollsForAllNodes table auth._id nodes,
            isNear allowedDiffInMs row other = true) ↔
          ∀ row ∈ completedCollsForAllNodes table auth._id nodes, isNodeOf row node = true →
            ∀ other ∈ completedCollsForAllNodes table auth._id nodes, row ≠ other →
              WithinTime allowedDiffInMs row other := by
        apply forall₂_congr
        intro row hrow
        apply forall_congr'
        intro _
        apply forall₂_congr
        intro other hother
        rw [isNear_iff (mem_rows_of_completed hrow) (mem_rows_of_completed hother)]
        exact or_iff_not_imp_left
      have hsome : (!((completedCollsForAllNodes table auth._id nodes).filter
          (isNodeOf · node)).isEmpty) = true ↔
          ∃ row ∈ completedCollsForAllNodes table auth._id nodes, isNodeOf row node = true := by
        simp
      simp only [Option.some.injEq, exists_eq_left', ← hnear, Bool.and_eq_true, hsome,
        List.all_eq_true, List.mem_filter, and_imp]

/-- What the gate tests. -/
theorem haveCollsBeenSyncedUpToDate_iff (schema : Schema) (commonAllowedDiffInMs : Option ℤ) :
    haveCollsBeenSyncedUpToDate table auth._id schema commonAllowedDiffInMs = true ↔
      Comparable table auth (getSchemaNodes schema) commonAllowedDiffInMs := by
  unfold haveCollsBeenSyncedUpToDate Comparable AllNear
  dsimp only
  generalize getSchemaNodes schema = nodes
  have hnodes : nodes.all (isNodeOk commonAllowedDiffInMs
      (completedCollsForAllNodes table auth._id nodes)) = true ↔
      (∀ node ∈ nodes, ∃ row ∈ completedCollsForAllNodes table auth._id nodes,
        isNodeOf row node = true) ∧
      ∀ node ∈ nodes, NodeNear table auth nodes commonAllowedDiffInMs node := by
    simp only [List.all_eq_true, isNodeOk_iff]
    exact forall₂_and
  rw [← hnodes]
  cases nodes with
  | nil => simp
  | cons node rest =>
      cases hvisible : getCompletedCollsBy table auth._id with
      | nil =>
          -- without rows no node is ready
          have hnone : completedCollsForAllNodes table auth._id (node :: rest) = [] := by
            rw [completedCollsForAllNodes, hvisible, List.filter_nil]
          simp [hnone, isNodeOk]
          intro h
          split at h <;> simp at h
      | cons row rows => simp

theorem mem_readyStepsOf {collName : String} {row : StepRow} :
    row ∈ readyStepsOf table auth collName ↔ row ∈ getCompletedCollsBy table auth._id ∧
      row.isBaseStepReady = true ∧ row.collName = collName := by
  rw [readyStepsOf, List.mem_filter, Bool.and_eq_true, decide_eq_true_iff]

/-- The steps of a node are those of its collection. -/
theorem mem_readyStepsOf_iff {nodes : List SchemaNode} {node : SchemaNode} {collName : String}
    (hnode : node ∈ nodes) (hname : node.collName = some collName) {row : StepRow} :
    row ∈ readyStepsOf table auth collName ↔
      row ∈ completedCollsForAllNodes table auth._id nodes ∧ isNodeOf row node = true := by
  have hof : isNodeOf row node = true ↔ row.collName = collName := by
    rw [isNodeOf, hname, decide_eq_true_iff, Option.some.injEq, eq_comm]
  rw [mem_readyStepsOf, completedCollsForAllNodes, List.mem_filter, Bool.and_eq_true,
    List.any_eq_true, hof]
  constructor
  · rintro ⟨hrow, hready, hcoll⟩
    exact ⟨⟨hrow, hready, node, hnode, hof.mpr hcoll⟩, hcoll⟩
  · rintro ⟨⟨hrow, hready, _⟩, hcoll⟩
    exact ⟨hrow, hready, hcoll⟩

/-- Some difference is as large as any between the times of a list of rows. -/
theorem exists_diff (rows : List StepRow) : ∃ diff : ℤ, ∀ row ∈ rows, ∀ other ∈ rows,
    ∀ syncedAt syncedAt', row.syncedAt = some syncedAt → other.syncedAt = some syncedAt' →
      |syncedAt - syncedAt'| ≤ diff := by
  have hbound : ∃ bound : ℤ, ∀ row ∈ rows, ∀ syncedAt, row.syncedAt = some syncedAt →
      |syncedAt| ≤ bound := by
    induction rows with
    | nil => exact ⟨0, by simp⟩
    | cons row rest ih =>
        obtain ⟨bound, hrest⟩ := ih
        refine ⟨max bound |row.syncedAt.getD 0|, ?_⟩
        intro row' hrow' syncedAt hsyncedAt
        rcases List.mem_cons.mp hrow' with rfl | hmem
        · rw [hsyncedAt]
          exact le_max_right _ _
        · exact (hrest row' hmem syncedAt hsyncedAt).trans (le_max_left _ _)
  obtain ⟨bound, hbound⟩ := hbound
  refine ⟨bound + bound, ?_⟩
  intro row hrow other hother syncedAt syncedAt' hsyncedAt hsyncedAt'
  obtain ⟨hlow, hhigh⟩ := abs_le.mp (hbound row hrow syncedAt hsyncedAt)
  obtain ⟨hlow', hhigh'⟩ := abs_le.mp (hbound other hother syncedAt' hsyncedAt')
  apply abs_le.mpr
  omega

/-- With a large enough difference the gate opens for a single collection that has
comparable steps. -/
theorem exists_open {collName : String} (hsome : readyStepsOf table auth collName ≠ [])
    (htimed : ∀ row ∈ readyStepsOf table auth collName,
      ∀ other ∈ readyStepsOf table auth collName, row ≠ other → row.syncedAt.isSome) :
    ∃ commonAllowedDiffInMs, haveCollsBeenSyncedUpToDate table auth._id
      (.array [.name collName]) commonAllowedDiffInMs = true := by
  obtain ⟨diff, hdiff⟩ := exists_diff (readyStepsOf table auth collName)
  refine ⟨some diff, (haveCollsBeenSyncedUpToDate_iff _ _).mpr ⟨by simp [getSchemaNodes], ?_, ?_⟩⟩
  · intro node hnode
    obtain rfl := List.mem_singleton.mp hnode
    obtain ⟨row, hrow⟩ := List.exists_mem_of_ne_nil _ hsome
    exact ⟨row, (mem_readyStepsOf_iff hnode rfl).mp hrow⟩
  · intro node hnode
    obtain rfl := List.mem_singleton.mp hnode
    refine ⟨diff, rfl, ?_⟩
    intro row hrow hof other hother hne
    have hready := (mem_readyStepsOf_iff hnode rfl).mpr ⟨hrow, hof⟩
    have hotherOf : isNodeOf other ⟨some collName, none⟩ = true := by
      have hany := (List.mem_filter.mp hother).2
      simpa [getSchemaNodes] using (Bool.and_eq_true_iff.mp hany).2
    have hotherReady := (mem_readyStepsOf_iff hnode rfl).mpr ⟨hother, hotherOf⟩
    obtain ⟨syncedAt, hsyncedAt⟩ :=
      Option.isSome_iff_exists.mp (htimed row hready other hotherReady hne)
    obtain ⟨syncedAt', hsyncedAt'⟩ :=
      Option.isSome_iff_exists.mp (htimed other hotherReady row hready hne.symm)
    exact ⟨syncedAt, syncedAt', hsyncedAt, hsyncedAt',
      hdiff row hready other hotherReady _ _ hsyncedAt hsyncedAt'⟩

/-- Where the gate is open, the steps of a required collection are comparable, and each
sub-user has one if the collection is loaded for all of them. -/
theorem Comparable.exists_ready {nodes : List SchemaNode} {commonAllowedDiffInMs : Option ℤ}
    (h : Comparable table auth nodes commonAllowedDiffInMs) {node : SchemaNode}
    (hnode : node ∈ nodes) {collName : String} (hname : node.collName = some collName)
    (hloaded : LoadedForAll table auth collName) {subUserId : ℤ}
    (hsubUser : subUserId ∈ auth.subUsers) :
    ∃ row ∈ completedCollsForAllNodes table auth._id nodes,
      isNodeOf row node = true ∧ IsStepOf subUserId row := by
  have hsome : readyStepsOf table auth collName ≠ [] := by
    obtain ⟨row, hrow, hof⟩ := h.2.1 node hnode
    exact List.ne_nil_of_mem ((mem_readyStepsOf_iff hnode hname).mpr ⟨hrow, hof⟩)
  obtain ⟨diff, _, hnear⟩ := h.2.2 node hnode
  obtain ⟨row, hrow, hstep⟩ := hloaded hsome (by
    intro row hrow other hother hne
    obtain ⟨hrow, hof⟩ := (mem_readyStepsOf_iff hnode hname).mp hrow
    have hother := ((mem_readyStepsOf_iff hnode hname).mp hother).1
    obtain ⟨syncedAt, _, hsyncedAt, _⟩ := hnear row hrow hof other hother hne
    rw [hsyncedAt]
    rfl) subUserId hsubUser
  obtain ⟨hrow, hof⟩ := (mem_readyStepsOf_iff hnode hname).mp hrow
  exact ⟨row, hrow, hof, hstep⟩

/-- Over all schemas of some collections and all differences the gate keeps its promise
exactly if it is not for a sub-account, or each of the collections that is loaded for
anyone is loaded for each sub-user. -/
theorem gate_sound_iff (table : StepsTable) (auth : Auth) (colls : List String) :
    (∀ (schema : Schema) (commonAllowedDiffInMs : Option ℤ),
      (∀ node ∈ getSchemaNodes schema, ∀ collName ∈ node.collName, collName ∈ colls) →
      haveCollsBeenSyncedUpToDate table auth._id schema commonAllowedDiffInMs = true →
        AllReady table auth (getSchemaNodes schema) ∧
          AllNear table auth (getSchemaNodes schema) commonAllowedDiffInMs) ↔
    (auth.isSubAccount = true → ∀ collName ∈ colls, LoadedForAll table auth collName) := by
  constructor
  · intro h hsub collName hcoll hsome htimed subUserId hsubUser
    obtain ⟨diff, hopen⟩ := exists_open hsome htimed
    have hnode : ⟨some collName, none⟩ ∈ getSchemaNodes (.array [.name collName]) := .head _
    obtain ⟨hready, _⟩ := h (.array [.name collName]) diff (by simpa [getSchemaNodes]) hopen
    have hsubUsers := hready _ hnode
    rw [if_pos hsub] at hsubUsers
    obtain ⟨row, hrow, hof, hstep⟩ := hsubUsers subUserId hsubUser
    exact ⟨row, (mem_readyStepsOf_iff hnode rfl).mpr ⟨hrow, hof⟩, hstep⟩
  · intro h schema commonAllowedDiffInMs hcolls hopen
    have hcomparable := (haveCollsBeenSyncedUpToDate_iff schema commonAllowedDiffInMs).mp hopen
    refine ⟨?_, hcomparable.2.2⟩
    intro node hnode
    split_ifs with hsub
    · intro subUserId hsubUser
      obtain ⟨row, _, hof⟩ := hcomparable.2.1 node hnode
      have hname : node.collName = some row.collName := of_decide_eq_true hof
      exact hcomparable.exists_ready hnode hname
        (h hsub _ (hcolls node hnode _ hname)) hsubUser
    · exact hcomparable.2.1 node hnode

namespace Witness

/-- The ledgers of sub-user 2 are loaded, those of sub-user 3 are not. -/
def halfLoaded : StepsTable where
  rows := [⟨1, "_getLedgers", some 100, true, some 2, some 1⟩,
    ⟨2, "_getLedgers", none, false, some 3, some 1⟩]
  positive := by decide
  distinct := by decide

/-- The gate is open for the sub-account of both. -/
theorem open_without_sub_user :
    ¬ (haveCollsBeenSyncedUpToDate halfLoaded 1 (.array [.name "_getLedgers"])
        (some 86400000) = true →
      AllReady halfLoaded ⟨1, true, [2, 3]⟩ (getSchemaNodes (.array [.name "_getLedgers"])) ∧
        AllNear halfLoaded ⟨1, true, [2, 3]⟩ (getSchemaNodes (.array [.name "_getLedgers"]))
          (some 86400000)) := by
  intro h
  obtain ⟨hready, _⟩ := h (by decide)
  obtain ⟨row, hrow, _, hstep⟩ := hready _ (.head _) 3 (by simp)
  have hnone : ∀ row ∈ completedCollsForAllNodes halfLoaded 1
      (getSchemaNodes (.array [.name "_getLedgers"])),
      row.user_id ≠ none ∧ row.subUserId ≠ some 3 := by decide
  rcases hstep with hshared | hown
  · exact (hnone row hrow).1 hshared
  · exact (hnone row hrow).2 hown

end Witness

end ConsistencyGate

end ReportsFramework
