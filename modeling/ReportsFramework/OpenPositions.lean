/-
The positions that are open in each frame of the profit/loss: carried from frame to frame,
with the newest snapshots before the older ones and without the positions closed.
-/
import Mathlib.Algebra.Order.Field.Rat
import ReportsFramework.SeriesMerge

namespace ReportsFramework

namespace PositionsSnapshot

/-- A snapshot of a position, or the row of a closed one; `none` stands for what is not a
finite number. -/
structure Position where
  id : Option ℤ
  plUsd : Option ℚ
deriving DecidableEq

def isClosedPosition (positionsHistory : List Position) (id : Option ℤ) : Bool :=
  positionsHistory.any fun item => item.id = id

/-- One step of the `reduce`. -/
def addPosition (positionsHistory accum : List Position) (position : Position) : List Position :=
  if position.id.isSome && accum.all (fun item => item.id ≠ position.id) &&
      !isClosedPosition positionsHistory position.id then
    accum ++ [position]
  else accum

def filterPositionsSnapshots (positionsSnapshots positionsHistory : List Position) :
    List Position :=
  positionsSnapshots.foldl (addPosition positionsHistory) []

/-- What is grouped under one timestamp: the positions closed, and the snapshots, from the
newest on. -/
structure Frame where
  positionsHistory : List Position
  positionsSnapshots : List Position
deriving DecidableEq

/-- `prevActivePositions` behind a frame. -/
def activePositions (activePositionsAtEnd : List Position) (isEndPoint : Bool)
    (prevActivePositions : List Position) (frame : Frame) : List Position :=
  filterPositionsSnapshots
    ((if isEndPoint then activePositionsAtEnd else []) ++ frame.positionsSnapshots ++
      prevActivePositions)
    frame.positionsHistory

/-- The sum of the finite `plUsd`, if there is any. -/
def accumPLUsd (positions : List Position) : Option ℚ :=
  positions.foldl (fun accum curr =>
    match curr.plUsd with
    | none => accum
    | some plUsd => some (match accum with
        | some usd => usd + plUsd
        | none => plUsd)) none

def getPLByTimeframe (activePositionsAtEnd : List Position) (isEndPoint : Bool)
    (prevActivePositions : List Position) (frame : Frame) : Option ℚ × List Position :=
  let active := activePositions activePositionsAtEnd isEndPoint prevActivePositions frame
  (accumPLUsd active, active)

/-- The series behind a frame. -/
inductive SeriesKey
  | positionsHistoryGroupedByTimeframe
  | plGroupedByTimeframe
  | mtsGroupedByTimeframe
deriving DecidableEq

/-- `res` of the positions of a group, or `mts`. -/
abbrev SeriesKey.Vals : SeriesKey → Type
  | .positionsHistoryGroupedByTimeframe => List Position
  | .plGroupedByTimeframe => List Position
  | .mtsGroupedByTimeframe => ℤ

def Frame.ofItem (item : MergedItem SeriesKey.Vals) : Frame where
  positionsHistory := (item.vals .positionsHistoryGroupedByTimeframe).getD []
  positionsSnapshots := (item.vals .plGroupedByTimeframe).getD []

/-- The profit/loss of the frames, from the newest on; the newest is the end point. -/
def plSnapshot (activePositionsAtStart activePositionsAtEnd : List Position)
    (data : CalcGroupedData.Series SeriesKey.Vals) : List (GroupItem ℚ) :=
  (CalcGroupedData.calcGroupedData
    [.positionsHistoryGroupedByTimeframe, .plGroupedByTimeframe, .mtsGroupedByTimeframe] data
    (CalcGroupedData.fromOldest fun _ state item =>
      getPLByTimeframe activePositionsAtEnd (item.2 = 0) state (.ofItem item.1))
    true activePositionsAtStart).1

section Run

variable (activePositionsAtStart activePositionsAtEnd : List Position)

/-- The positions used in each frame, from the oldest frame on. -/
def activeRun (prevActivePositions : List Position) : List Frame → List (List Position)
  | [] => []
  | frame :: rest =>
      let active := activePositions activePositionsAtEnd rest.isEmpty prevActivePositions frame
      active :: activeRun active rest

theorem runFrames_getPLByTimeframe (prev : List Position) (isFirst : Bool)
    (items : List (MergedItem SeriesKey.Vals)) :
    (CalcGroupedData.runFrames (fun _ state item =>
        getPLByTimeframe activePositionsAtEnd (item.2 = 0) state (.ofItem item.1)) isFirst prev
      items.zipIdx.reverse).1 =
      (activeRun activePositionsAtEnd prev (items.reverse.map Frame.ofItem)).map accumPLUsd := by
  induction items using List.reverseRecOn generalizing prev isFirst with
  | nil => rfl
  | append_singleton items item ih =>
    rw [List.zipIdx_append, List.reverse_append, List.zipIdx_singleton, List.reverse_singleton,
      List.singleton_append, CalcGroupedData.runFrames, List.reverse_append,
      List.reverse_singleton, List.singleton_append, List.map_cons, activeRun, List.map_cons]
    dsimp only
    rw [ih]
    have hend : decide (0 + items.length = 0) = (items.reverse.map Frame.ofItem).isEmpty := by
      cases items <;> simp
    rw [hend]
    rfl

/-- The profit/loss of each frame is the one of the positions used in it. -/
theorem plSnapshot_eq (data : CalcGroupedData.Series SeriesKey.Vals) :
    plSnapshot activePositionsAtStart activePositionsAtEnd data =
      (CalcGroupedData.stamped (CalcGroupedData.mergeData
          [.positionsHistoryGroupedByTimeframe, .plGroupedByTimeframe, .mtsGroupedByTimeframe]
          data).reverse
        ((activeRun activePositionsAtEnd activePositionsAtStart ((CalcGroupedData.mergeData
          [.positionsHistoryGroupedByTimeframe, .plGroupedByTimeframe, .mtsGroupedByTimeframe]
          data).reverse.map Frame.ofItem)).map accumPLUsd)).reverse := by
  rw [plSnapshot, CalcGroupedData.calcGroupedData_fromOldest, runFrames_getPLByTimeframe]

end Run

section Filter

variable (positionsHistory : List Position)

theorem isClosedPosition_eq_true_iff (id : Option ℤ) :
    isClosedPosition positionsHistory id = true ↔ ∃ item ∈ positionsHistory, item.id = id := by
  simp [isClosedPosition]

/-- The ids of the positions kept are finite and distinct. -/
theorem foldl_addPosition_ids (positionsSnapshots accum : List Position)
    (hnodup : (accum.map Position.id).Nodup) (hsome : ∀ p ∈ accum, p.id.isSome) :
    ((positionsSnapshots.foldl (addPosition positionsHistory) accum).map Position.id).Nodup ∧
      ∀ p ∈ positionsSnapshots.foldl (addPosition positionsHistory) accum, p.id.isSome := by
  induction positionsSnapshots generalizing accum with
  | nil => exact ⟨hnodup, hsome⟩
  | cons position rest ih =>
    rw [List.foldl_cons, addPosition]
    split_ifs with hadd
    · simp only [Bool.and_eq_true, List.all_eq_true, decide_eq_true_eq] at hadd
      obtain ⟨⟨hid, hnew⟩, _⟩ := hadd
      apply ih
      · rw [List.map_append, List.map_singleton]
        apply List.nodup_append.mpr
        refine ⟨hnodup, List.nodup_singleton _, ?_⟩
        intro id hmem id' hid'
        obtain ⟨item, hitem, rfl⟩ := List.mem_map.mp hmem
        rw [List.mem_singleton.mp hid']
        exact hnew item hitem
      · intro p hp
        rcases List.mem_append.mp hp with hp | hp
        · exact hsome p hp
        · rwa [List.mem_singleton.mp hp]
    · exact ih accum hnodup hsome

/-- The first position of each id is kept, if it is not closed. -/
theorem find?_foldl_addPosition (positionsSnapshots accum : List Position) (id : ℤ) :
    (positionsSnapshots.foldl (addPosition positionsHistory) accum).find? (·.id = some id) =
      (accum.find? (·.id = some id)).or
        (if isClosedPosition positionsHistory (some id) then none
        else positionsSnapshots.find? (·.id = some id)) := by
  induction positionsSnapshots generalizing accum with
  | nil => simp
  | cons position rest ih =>
    rw [List.foldl_cons, ih, addPosition]
    by_cases hid : position.id = some id
    · rw [List.find?_cons_of_pos (by simpa using hid), hid]
      cases hclosed : isClosedPosition positionsHistory (some id) with
      | true => simp
      | false =>
        cases hnew : accum.all (fun item => item.id ≠ some id) with
        | true =>
          rw [Option.isSome_some, Bool.true_and, Bool.not_false, Bool.and_true, if_pos rfl,
            List.find?_append, List.find?_cons_of_pos (by simpa using hid), Option.or_assoc,
            Option.some_or, if_neg Bool.false_ne_true]
        | false =>
          -- a position of this id is there already
          have hold : (accum.find? (·.id = some id)).isSome := by
            rw [List.find?_isSome]
            simpa using hnew
          obtain ⟨old, hold⟩ := Option.isSome_iff_exists.mp hold
          rw [Bool.and_false, Bool.false_and, if_neg Bool.false_ne_true, hold, Option.some_or,
            Option.some_or]
    · rw [List.find?_cons_of_neg (by simpa using hid)]
      split_ifs with hadd hclosed hclosed
      · simp [List.find?_append, hid]
      · simp [List.find?_append, hid]
      · rfl
      · rfl

theorem find?_filterPositionsSnapshots (positionsSnapshots : List Position) (id : ℤ) :
    (filterPositionsSnapshots positionsSnapshots positionsHistory).find? (·.id = some id) =
      if isClosedPosition positionsHistory (some id) then none
      else positionsSnapshots.find? (·.id = some id) := by
  rw [filterPositionsSnapshots, find?_foldl_addPosition, List.find?_nil, Option.none_or]

/-- With distinct ids, what is found is what is there. -/
theorem mem_filterPositionsSnapshots (positionsSnapshots : List Position) (p : Position) :
    p ∈ filterPositionsSnapshots positionsSnapshots positionsHistory ↔
      ∃ id, p.id = some id ∧
        (filterPositionsSnapshots positionsSnapshots positionsHistory).find? (·.id = some id) =
          some p := by
  obtain ⟨hnodup, hsome⟩ := foldl_addPosition_ids positionsHistory positionsSnapshots []
    List.nodup_nil (by simp)
  rw [← filterPositionsSnapshots] at hnodup hsome
  constructor
  · intro hp
    obtain ⟨id, hid⟩ := Option.isSome_iff_exists.mp (hsome p hp)
    refine ⟨id, hid, ?_⟩
    have hfound : ((filterPositionsSnapshots positionsSnapshots positionsHistory).find?
        (·.id = some id)).isSome := by
      rw [List.find?_isSome]
      exact ⟨p, hp, by simpa using hid⟩
    obtain ⟨q, hq⟩ := Option.isSome_iff_exists.mp hfound
    have hqid : q.id = some id := by simpa using List.find?_some hq
    rw [hq, List.inj_on_of_nodup_map hnodup (List.mem_of_find?_eq_some hq) hp (hqid.trans hid.symm)]
  · rintro ⟨id, _, hfound⟩
    exact List.mem_of_find?_eq_some hfound

end Filter

section Open

variable (activePositionsAtStart activePositionsAtEnd : List Position)

/-- The frames, the last with the positions that are active at the end, which come before
its snapshots. -/
def withEnd : List Frame → List Frame
  | [] => []
  | frame :: rest =>
      if rest.isEmpty then
        [{ frame with positionsSnapshots := activePositionsAtEnd ++ frame.positionsSnapshots }]
      else frame :: withEnd rest

/-- The snapshots seen in the frames, from the newest on, and before them. -/
def seen (frames : List Frame) : List Position :=
  frames.reverse.flatMap Frame.positionsSnapshots ++ activePositionsAtStart

/-- Each closing of a position has a snapshot of it in a later frame. -/
def StillOpen (id : ℤ) (frames : List Frame) : Prop :=
  ∀ k frame, frames[k]? = some frame → (∃ item ∈ frame.positionsHistory, item.id = some id) →
    ∃ later ∈ frames.drop (k + 1), ∃ p ∈ later.positionsSnapshots, p.id = some id

theorem seen_concat (earlier : List Frame) (frame : Frame) :
    seen activePositionsAtStart (earlier ++ [frame]) =
      frame.positionsSnapshots ++ seen activePositionsAtStart earlier := by
  simp [seen]

theorem stillOpen_concat (id : ℤ) (earlier : List Frame) (frame : Frame) :
    StillOpen id (earlier ++ [frame]) ↔
      (¬ ∃ item ∈ frame.positionsHistory, item.id = some id) ∧
        ((∃ p ∈ frame.positionsSnapshots, p.id = some id) ∨ StillOpen id earlier) := by
  have hdrop : ∀ k closing, earlier[k]? = some closing →
      (earlier ++ [frame]).drop (k + 1) = earlier.drop (k + 1) ++ [frame] := by
    intro k closing hk
    obtain ⟨hlt, _⟩ := List.getElem?_eq_some_iff.mp hk
    exact List.drop_append_of_le_length hlt
  constructor
  · intro h
    constructor
    · intro hclosed
      have := h earlier.length frame (by simp) hclosed
      simp at this
    · by_cases hsnapshot : ∃ p ∈ frame.positionsSnapshots, p.id = some id
      · exact .inl hsnapshot
      · right
        intro k closing hk hclosed
        have hlater := h k closing (List.getElem?_append_left
          (List.getElem?_eq_some_iff.mp hk).1 ▸ hk) hclosed
        rw [hdrop k closing hk] at hlater
        obtain ⟨later, hlater, hp⟩ := hlater
        rcases List.mem_append.mp hlater with hlater | hlater
        · exact ⟨later, hlater, hp⟩
        · rw [List.mem_singleton.mp hlater] at hp
          exact absurd hp hsnapshot
  · rintro ⟨hopen, hor⟩ k closing hk hclosed
    rcases Nat.lt_or_ge k earlier.length with hlt | hge
    · rw [List.getElem?_append_left hlt] at hk
      rw [hdrop k closing hk]
      rcases hor with hsnapshot | hearlier
      · exact ⟨frame, by simp, hsnapshot⟩
      · obtain ⟨later, hlater, hp⟩ := hearlier k closing hk hclosed
        exact ⟨later, List.mem_append_left _ hlater, hp⟩
    · rw [List.getElem?_append_right hge] at hk
      have := List.mem_of_getElem? hk
      rw [List.mem_singleton.mp this] at hclosed
      exact absurd hclosed hopen

/-- The positions behind the frames. -/
def carried (prevActivePositions : List Position) (frames : List Frame) : List Position :=
  frames.foldl (activePositions [] false) prevActivePositions

/-- What is carried of an id is its newest snapshot, if the position is still open. -/
theorem find?_carried (frames : List Frame) (id : ℤ) (p : Position) :
    (carried activePositionsAtStart frames).find? (·.id = some id) = some p ↔
      (seen activePositionsAtStart frames).find? (·.id = some id) = some p ∧
        StillOpen id frames := by
  induction frames using List.reverseRecOn with
  | nil =>
    rw [carried, List.foldl_nil, seen]
    simp [StillOpen]
  | append_singleton earlier frame ih =>
    have hcarried : carried activePositionsAtStart (earlier ++ [frame]) =
        activePositions [] false (carried activePositionsAtStart earlier) frame := by
      rw [carried, List.foldl_append]
      rfl
    rw [hcarried, activePositions, find?_filterPositionsSnapshots, seen_concat, stillOpen_concat,
      ← isClosedPosition_eq_true_iff]
    simp only [Bool.false_eq_true, if_false, List.nil_append, List.find?_append]
    cases hclosed : isClosedPosition frame.positionsHistory (some id) with
    | true => simp
    | false =>
      simp only [Bool.false_eq_true, if_false, not_false_eq_true, true_and]
      cases hfound : frame.positionsSnapshots.find? (·.id = some id) with
      | none =>
        have hnone : ¬ ∃ p ∈ frame.positionsSnapshots, p.id = some id := by
          simpa using hfound
        rw [Option.none_or, Option.none_or, ih]
        simp [hnone]
      | some q =>
        have hsome : ∃ p ∈ frame.positionsSnapshots, p.id = some id :=
          ⟨q, List.mem_of_find?_eq_some hfound, by simpa using List.find?_some hfound⟩
        simp [hsome]

theorem getElem?_activeRun (prev : List Position) (frames : List Frame) (k : ℕ) :
    (activeRun activePositionsAtEnd prev frames)[k]? =
      if k < frames.length then
        some (carried prev ((withEnd activePositionsAtEnd frames).take (k + 1)))
      else none := by
  induction frames generalizing prev k with
  | nil => rfl
  | cons frame rest ih =>
    cases rest with
    | nil =>
      cases k with
      | zero => simp [activeRun, withEnd, carried, activePositions]
      | succ k => simp [activeRun]
    | cons next rest =>
      cases k with
      | zero => simp [activeRun, withEnd, carried, activePositions]
      | succ k =>
        have hend : withEnd activePositionsAtEnd (frame :: next :: rest) =
            frame :: withEnd activePositionsAtEnd (next :: rest) := rfl
        rw [activeRun, List.getElem?_cons_succ, ih, hend, List.take_succ_cons,
          @List.length_cons _ frame (next :: rest)]
        simp only [Nat.add_lt_add_iff_right]
        rfl

/-- In each frame the positions used have distinct ids.  They are the newest snapshots, up to
the frame, of the positions whose closings up to the frame all have a snapshot in a later
frame: none of them is closed in the frame. -/
theorem activeRun_spec (frames : List Frame) {k : ℕ} {active : List Position}
    (h : (activeRun activePositionsAtEnd activePositionsAtStart frames)[k]? = some active) :
    (active.map Position.id).Nodup ∧
      ∀ p, p ∈ active ↔ ∃ id, p.id = some id ∧
        (seen activePositionsAtStart
          ((withEnd activePositionsAtEnd frames).take (k + 1))).find? (·.id = some id) = some p ∧
        StillOpen id ((withEnd activePositionsAtEnd frames).take (k + 1)) := by
  rw [getElem?_activeRun] at h
  split_ifs at h with hk
  obtain rfl := Option.some.inj h
  have hne : (withEnd activePositionsAtEnd frames).take (k + 1) ≠ [] := by
    cases frames with
    | nil => simp at hk
    | cons frame rest => cases rest <;> simp [withEnd]
  obtain ⟨earlier, frame, hframes⟩ := (List.eq_nil_or_concat' _).resolve_left hne
  simp only [← find?_carried]
  rw [hframes, carried, List.foldl_append, List.foldl_cons, List.foldl_nil, activePositions]
  exact ⟨(foldl_addPosition_ids _ _ [] List.nodup_nil (by simp)).1,
    mem_filterPositionsSnapshots _ _⟩

end Open

namespace OpenWitness

def position (id : ℤ) (plUsd : ℚ) : Position := ⟨some id, some plUsd⟩

/-- Position 1 is open at the start, closed in the second frame and seen again in the third;
position 2 is seen in the first frame only. -/
def frames : List Frame :=
  [⟨[], [position 2 5]⟩, ⟨[position 1 0], []⟩, ⟨[], [position 1 7]⟩]

theorem activeRun_spec_frames :
    activeRun [] [position 1 3] frames =
        [[position 2 5, position 1 3], [position 2 5], [position 1 7, position 2 5]] ∧
      ([position 1 7, position 2 5].map Position.id).Nodup ∧
      ∀ p, p ∈ [position 1 7, position 2 5] ↔ ∃ id, p.id = some id ∧
        (seen [position 1 3] ((withEnd [] frames).take 3)).find? (·.id = some id) = some p ∧
        StillOpen id ((withEnd [] frames).take 3) := by
  have hrun : activeRun [] [position 1 3] frames =
      [[position 2 5, position 1 3], [position 2 5], [position 1 7, position 2 5]] := by
    decide +kernel
  refine ⟨hrun, activeRun_spec [position 1 3] [] frames (k := 2) ?_⟩
  rw [hrun]
  rfl

end OpenWitness

end PositionsSnapshot

end ReportsFramework
