/-
The Gregorian calendar in UTC, on integers: days and months counted from the first
of January 1970, weeks from Monday.  A division of the time line into frames is given
by its boundaries and the number of the frame a time lies in.
-/
import Mathlib.Data.Int.Notation
import Mathlib.Data.List.Basic
import Mathlib.Order.Basic
import Mathlib.Tactic.SplitIfs

/-- Consecutive frames: frame `n` is from `boundary n` to `boundary (n + 1)`. -/
structure Frames where
  boundary : ℤ → ℤ
  index : ℤ → ℤ
  boundary_lt (n : ℤ) : boundary n < boundary (n + 1)
  boundary_index_le (t : ℤ) : boundary (index t) ≤ t
  lt_boundary (t : ℤ) : t < boundary (index t + 1)

namespace Frames

variable (F : Frames) {n m t u : ℤ}

/-- The start of the frame of a time. -/
def start (t : ℤ) : ℤ := F.boundary (F.index t)

theorem boundary_mono (h : n ≤ m) : F.boundary n ≤ F.boundary m := by
  obtain ⟨k, rfl⟩ := Int.le.dest h
  clear h
  induction k with
  | zero => simp
  | succ k ih =>
    have := F.boundary_lt (n + k)
    rw [Int.natCast_succ, ← Int.add_assoc]
    omega

theorem boundary_lt_boundary (h : n < m) : F.boundary n < F.boundary m := by
  have := F.boundary_lt n
  have := F.boundary_mono (n := n + 1) (m := m) h
  omega

theorem index_eq (h : F.boundary n ≤ t) (h' : t < F.boundary (n + 1)) : F.index t = n := by
  have hle := F.boundary_index_le t
  have hlt := F.lt_boundary t
  by_contra hne
  rcases Int.lt_or_gt_of_ne hne with hless | hmore
  · have := F.boundary_mono (n := F.index t + 1) (m := n) hless
    omega
  · have := F.boundary_mono (n := n + 1) (m := F.index t) hmore
    omega

@[simp] theorem index_boundary (n : ℤ) : F.index (F.boundary n) = n :=
  F.index_eq Int.le_rfl (F.boundary_lt n)

@[simp] theorem start_boundary (n : ℤ) : F.start (F.boundary n) = F.boundary n := by
  rw [start, index_boundary]

@[simp] theorem start_start (t : ℤ) : F.start (F.start t) = F.start t :=
  F.start_boundary (F.index t)

theorem start_le (t : ℤ) : F.start t ≤ t := F.boundary_index_le t

theorem index_mono (h : t ≤ u) : F.index t ≤ F.index u := by
  by_contra hlt
  have := F.boundary_mono (n := F.index u + 1) (m := F.index t) (by omega)
  have := F.boundary_index_le t
  have := F.lt_boundary u
  omega

theorem start_mono (h : t ≤ u) : F.start t ≤ F.start u :=
  F.boundary_mono (F.index_mono h)

/-- What starts up to a frame is before the next. -/
theorem start_le_boundary_iff : F.start t ≤ F.boundary n ↔ t < F.boundary (n + 1) := by
  have hlt := F.lt_boundary t
  constructor
  · intro hle
    have hindex := F.index_mono hle
    rw [start, index_boundary, index_boundary] at hindex
    have := F.boundary_mono (n := F.index t + 1) (m := n + 1) (by omega)
    omega
  · intro hbefore
    have hindex := F.index_mono (t := t) (u := F.boundary (n + 1) - 1) (by omega)
    have hlast : F.index (F.boundary (n + 1) - 1) = n := by
      have := F.boundary_lt n
      exact F.index_eq (by omega) (by omega)
    exact F.boundary_mono (by omega)

/-- The starts of the frames of two times, and of the frames between, the latest first. -/
def between (t u : ℤ) : List ℤ :=
  ((List.range (F.index u - F.index t + 1).toNat).map fun k : ℕ =>
    F.boundary (F.index t + k)).reverse

theorem mem_between {b : ℤ} :
    b ∈ F.between t u ↔ F.start b = b ∧ F.start t ≤ b ∧ b ≤ F.start u := by
  simp only [between, List.mem_reverse, List.mem_map, List.mem_range]
  constructor
  · rintro ⟨k, hk, rfl⟩
    refine ⟨F.start_boundary _, F.boundary_mono (by omega), F.boundary_mono (by omega)⟩
  · rintro ⟨hb, hlow, hhigh⟩
    have hlow' := F.index_mono hlow
    have hhigh' := F.index_mono hhigh
    rw [start, index_boundary] at hlow' hhigh'
    refine ⟨(F.index b - F.index t).toNat, by omega, ?_⟩
    rw [Int.toNat_of_nonneg (by omega),
      show F.index t + (F.index b - F.index t) = F.index b by omega]
    exact hb

theorem pairwise_between (t u : ℤ) : (F.between t u).Pairwise (· > ·) := by
  refine List.pairwise_reverse.mpr (List.pairwise_map.mpr ?_)
  refine List.pairwise_lt_range.imp ?_
  intro k l hlt
  exact F.boundary_lt_boundary (by omega)

/-- One frame, or a last, a first and those between. -/
theorem between_cases (h : t ≤ u) :
    F.start t = F.start u ∧ F.between t u = [F.start u] ∨
      F.start t < F.start u ∧ ∃ mid, F.between t u = F.start u :: (mid ++ [F.start t]) ∧
        ∀ b, b ∈ mid ↔ F.start b = b ∧ F.start t < b ∧ b < F.start u := by
  have hmono := F.start_mono h
  have hfirst : F.start t ∈ F.between t u :=
    F.mem_between.mpr ⟨F.start_start t, Int.le_rfl, hmono⟩
  have hlast : F.start u ∈ F.between t u :=
    F.mem_between.mpr ⟨F.start_start u, hmono, Int.le_rfl⟩
  have hpairwise := F.pairwise_between t u
  have hmem : ∀ b, b ∈ F.between t u ↔ F.start b = b ∧ F.start t ≤ b ∧ b ≤ F.start u :=
    fun b => F.mem_between
  revert hfirst hlast hpairwise hmem
  cases F.between t u with
  | nil => simp
  | cons head rest =>
    intro hfirst hlast hpairwise hmem
    obtain ⟨hhead, hrest⟩ := List.pairwise_cons.mp hpairwise
    obtain rfl : head = F.start u := by
      have hle := (hmem head).mp List.mem_cons_self
      rcases List.mem_cons.mp hlast with heq | hlast
      · exact heq.symm
      · have := hhead _ hlast
        omega
    rcases List.eq_nil_or_concat' rest with rfl | ⟨mid, last, rfl⟩
    · exact .inl ⟨List.mem_singleton.mp hfirst, rfl⟩
    · obtain ⟨hmid, _, hbefore⟩ := List.pairwise_append.mp hrest
      have hbelow := hhead last (by simp)
      obtain rfl : last = F.start t := by
        have hle := (hmem last).mp (by simp)
        rcases List.mem_cons.mp hfirst with heq | hfirst
        · omega
        · rcases List.mem_append.mp hfirst with hin | hin
          · have := hbefore _ hin last (by simp)
            omega
          · exact (List.mem_singleton.mp hin).symm
      refine .inr ⟨hbelow, mid, by simp, ?_⟩
      intro b
      constructor
      · intro hb
        have hb' := (hmem b).mp (by simp [hb])
        have := hhead b (by simp [hb])
        have := hbefore b hb (F.start t) (by simp)
        exact ⟨hb'.1, by omega, by omega⟩
      · rintro ⟨hb, hlow, hhigh⟩
        have hin := (hmem b).mpr ⟨hb, by omega, by omega⟩
        simp only [List.mem_cons, List.mem_append, List.not_mem_nil,
          or_false] at hin
        rcases hin with heq | hin | heq
        · omega
        · exact hin
        · omega

theorem sub_le_boundary_sub (h : n ≤ m) : m - n ≤ F.boundary m - F.boundary n := by
  obtain ⟨k, rfl⟩ := Int.le.dest h
  clear h
  induction k with
  | zero => simp
  | succ k ih =>
    have := F.boundary_lt (n + k)
    rw [Int.natCast_succ, ← Int.add_assoc]
    omega

/-- Frames of a finer unit, where the unit has the given length. -/
def scale (length : ℤ) (hlength : 0 < length) : Frames where
  boundary n := F.boundary n * length
  index t := F.index (t / length)
  boundary_lt n := Int.mul_lt_mul_of_pos_right (F.boundary_lt n) hlength
  boundary_index_le t := by
    have hle :=
      Int.mul_le_mul_of_nonneg_right (F.boundary_index_le (t / length)) (Int.le_of_lt hlength)
    exact Int.le_trans hle (Int.ediv_mul_le t (Int.ne_of_gt hlength))
  lt_boundary t := by
    have hle := Int.mul_le_mul_of_nonneg_right (F.lt_boundary (t / length)) (Int.le_of_lt hlength)
    exact Int.lt_of_lt_of_le (Int.lt_ediv_add_one_mul_self t hlength) hle

theorem sub_le_scale_sub (length : ℤ) (hlength : 0 < length) (h : n ≤ m) :
    m - n ≤
      ((F.scale length hlength).boundary m - (F.scale length hlength).boundary n) / length := by
  change _ ≤ (F.boundary m * length - F.boundary n * length) / length
  rw [← Int.sub_mul, Int.mul_ediv_cancel _ (Int.ne_of_gt hlength)]
  exact F.sub_le_boundary_sub h

end Frames

namespace UtcCalendar

/-- The number of the first day of a year. -/
def dayFromYear (year : ℤ) : ℤ :=
  365 * (year - 1970) + (year - 1969) / 4 - (year - 1901) / 100 + (year - 1601) / 400

/-- The year of a day: the estimate by the mean length of a year is off by at most one. -/
def yearFromDay (day : ℤ) : ℤ :=
  let year := 1970 + 400 * day / 146097
  if day < dayFromYear year then year - 1
  else if dayFromYear (year + 1) ≤ day then year + 1
  else year

theorem dayFromYear_succ (year : ℤ) : dayFromYear year + 365 ≤ dayFromYear (year + 1) ∧
    dayFromYear (year + 1) ≤ dayFromYear year + 366 := by
  unfold dayFromYear
  omega

theorem yearFromDay_spec (day : ℤ) : dayFromYear (yearFromDay day) ≤ day ∧
    day < dayFromYear (yearFromDay day + 1) := by
  unfold yearFromDay
  dsimp only
  split_ifs with hless hmore
  · rw [Int.sub_add_cancel]
    refine ⟨?_, hless⟩
    unfold dayFromYear
    omega
  · refine ⟨hmore, ?_⟩
    unfold dayFromYear
    omega
  · omega

/-- The days of a year before its month `month`, from 0. -/
def daysBeforeMonth (year month : ℤ) : ℤ :=
  if month < 2 then 31 * month
  else (153 * month - 304) / 5 + 59 + (dayFromYear (year + 1) - dayFromYear year - 365)

example : (List.range 12).map (fun month : ℕ => daysBeforeMonth 2021 month) =
    [0, 31, 59, 90, 120, 151, 181, 212, 243, 273, 304, 334] := by decide

/-- The first day of a month, where the months are numbered from the year 0. -/
def dayFromMonth (month : ℤ) : ℤ :=
  dayFromYear (month / 12) + daysBeforeMonth (month / 12) (month % 12)

/-- The month in the year, from 0. -/
def monthFromDay (day : ℤ) : ℤ :=
  let year := yearFromDay day
  let leapDay := dayFromYear (year + 1) - dayFromYear year - 365
  let dayInYear := day - dayFromYear year
  if dayInYear < 31 then 0
  else if dayInYear < 59 + leapDay then 1
  else 2 + (5 * (dayInYear - 59 - leapDay) + 2) / 153

/-- The day in the week, Monday being 0. -/
def weekday (day : ℤ) : ℤ := (day + 3) % 7

/-- The year the Thursday of the week lies in. -/
def isoWeekYear (day : ℤ) : ℤ := yearFromDay (day - weekday day + 3)

/-- The number of the week in its year, from 1. -/
def isoWeek (day : ℤ) : ℤ := (day - weekday day + 3 - dayFromYear (isoWeekYear day)) / 7 + 1

/-- The Monday of the week of 4 January. -/
def firstMonday (year : ℤ) : ℤ := dayFromYear year + 3 - weekday (dayFromYear year + 3)

def isoWeeksInYear (year : ℤ) : ℤ := (firstMonday (year + 1) - firstMonday year) / 7

example : (List.range 8).map (fun day : ℕ => (isoWeekYear (18627 + day), isoWeek (18627 + day))) =
    [(2020, 53), (2020, 53), (2020, 53), (2020, 53), (2021, 1), (2021, 1), (2021, 1),
      (2021, 1)] := by
  decide

theorem dayFromMonth_succ (month : ℤ) : dayFromMonth month + 28 ≤ dayFromMonth (month + 1) ∧
    dayFromMonth (month + 1) ≤ dayFromMonth month + 31 := by
  have hyear := dayFromYear_succ (month / 12)
  unfold dayFromMonth daysBeforeMonth
  by_cases hlast : month % 12 = 11
  · rw [show (month + 1) / 12 = month / 12 + 1 by omega, show (month + 1) % 12 = 0 by omega,
      hlast]
    simp only [Int.reduceLT, Int.reduceMul, if_true, if_false]
    omega
  · rw [show (month + 1) / 12 = month / 12 by omega,
      show (month + 1) % 12 = month % 12 + 1 by omega]
    split_ifs <;> omega

theorem monthFromDay_spec (day : ℤ) : 0 ≤ monthFromDay day ∧ monthFromDay day < 12 ∧
    daysBeforeMonth (yearFromDay day) (monthFromDay day) ≤ day - dayFromYear (yearFromDay day) ∧
    (monthFromDay day < 11 → day - dayFromYear (yearFromDay day) <
      daysBeforeMonth (yearFromDay day) (monthFromDay day + 1)) := by
  have hyear := dayFromYear_succ (yearFromDay day)
  have hday := yearFromDay_spec day
  unfold monthFromDay daysBeforeMonth
  dsimp only
  split_ifs <;> omega

theorem yearFromDay_eq {day year : ℤ} (h : dayFromYear year ≤ day)
    (h' : day < dayFromYear (year + 1)) : yearFromDay day = year := by
  have hmono : ∀ k : ℕ, ∀ y : ℤ, dayFromYear y ≤ dayFromYear (y + k) := by
    intro k y
    unfold dayFromYear
    omega
  have hday := yearFromDay_spec day
  by_contra hne
  rcases Int.lt_or_gt_of_ne hne with hless | hmore
  · have := hmono (year - (yearFromDay day + 1)).toNat (yearFromDay day + 1)
    rw [show yearFromDay day + 1 + ((year - (yearFromDay day + 1)).toNat : ℤ) = year by omega]
      at this
    omega
  · have := hmono (yearFromDay day - (year + 1)).toNat (year + 1)
    rw [show year + 1 + ((yearFromDay day - (year + 1)).toNat : ℤ) = yearFromDay day by omega]
      at this
    omega

/-- A Monday is found from the year and the number of its week. -/
theorem firstMonday_add_isoWeek (day : ℤ) :
    firstMonday (isoWeekYear day) + 7 * (isoWeek day - 1) = day - weekday day := by
  have hyear := yearFromDay_spec (day - weekday day + 3)
  unfold isoWeek firstMonday
  unfold isoWeekYear weekday at *
  omega

/-- A week of a year has the year and the number it is found by. -/
theorem isoWeek_firstMonday_add {year week : ℤ} (h : 1 ≤ week) (h' : week ≤ isoWeeksInYear year) :
    isoWeek (firstMonday year + 7 * (week - 1)) = week := by
  have hmonday : weekday (firstMonday year + 7 * (week - 1)) = 0 := by
    unfold firstMonday weekday
    omega
  have hyear : isoWeekYear (firstMonday year + 7 * (week - 1)) = year := by
    unfold isoWeekYear
    rw [hmonday]
    apply yearFromDay_eq
    · unfold firstMonday weekday
      omega
    · unfold isoWeeksInYear firstMonday weekday at h'
      unfold firstMonday weekday
      omega
  unfold isoWeek
  rw [hmonday, hyear]
  unfold firstMonday weekday
  omega

theorem one_le_isoWeek (day : ℤ) : 1 ≤ isoWeek day := by
  have hyear := yearFromDay_spec (day - weekday day + 3)
  unfold isoWeek isoWeekYear
  omega

theorem one_le_isoWeeksInYear (year : ℤ) : 1 ≤ isoWeeksInYear year := by
  have hyear := dayFromYear_succ year
  unfold isoWeeksInYear firstMonday weekday
  omega

def days : Frames where
  boundary := id
  index := id
  boundary_lt := Int.lt_succ
  boundary_index_le := Int.le_refl
  lt_boundary := Int.lt_succ

/-- The weeks from Monday. -/
def weeks : Frames where
  boundary week := 7 * week - 3
  index day := (day + 3) / 7
  boundary_lt week := by omega
  boundary_index_le day := by omega
  lt_boundary day := by omega

def months : Frames where
  boundary := dayFromMonth
  index day := 12 * yearFromDay day + monthFromDay day
  boundary_lt month := by
    have := dayFromMonth_succ month
    omega
  boundary_index_le day := by
    obtain ⟨hnonneg, hlt, hle, _⟩ := monthFromDay_spec day
    unfold dayFromMonth
    rw [show (12 * yearFromDay day + monthFromDay day) / 12 = yearFromDay day by omega,
      show (12 * yearFromDay day + monthFromDay day) % 12 = monthFromDay day by omega]
    omega
  lt_boundary day := by
    obtain ⟨hnonneg, hlt, _, hnext⟩ := monthFromDay_spec day
    have hday := yearFromDay_spec day
    unfold dayFromMonth
    by_cases hlast : monthFromDay day = 11
    · rw [show (12 * yearFromDay day + monthFromDay day + 1) / 12 = yearFromDay day + 1 by omega,
        show (12 * yearFromDay day + monthFromDay day + 1) % 12 = 0 by omega]
      simpa [daysBeforeMonth] using hday.2
    · rw [show (12 * yearFromDay day + monthFromDay day + 1) / 12 = yearFromDay day by omega,
        show (12 * yearFromDay day + monthFromDay day + 1) % 12 = monthFromDay day + 1 by omega]
      have := hnext (by omega)
      omega

def years : Frames where
  boundary := dayFromYear
  index := yearFromDay
  boundary_lt year := by
    have := dayFromYear_succ year
    omega
  boundary_index_le day := (yearFromDay_spec day).1
  lt_boundary day := (yearFromDay_spec day).2

end UtcCalendar
