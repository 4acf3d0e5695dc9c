/-
`convertData`: the rows of a query pass through the converter of their collection, and the
fields of what it keeps are deserialised on the way.
-/
import ReportsFramework.Serialization

namespace ReportsFramework

open Js Serialization

namespace FindInCollBy

def deserializeFields (o : Obj) : Obj :=
  o.map fun entry => (entry.1, deserializeVal entry.2 entry.1)

/-- An element of the result, and how often its fields were deserialised. -/
structure Converted where
  obj : Obj
  passes : ℕ

def Converted.deserialized (element : Converted) : Converted :=
  ⟨deserializeFields element.obj, element.passes + 1⟩

inductive ConversionError
  /-- `Object.keys` of `undefined`. -/
  | typeError
deriving DecidableEq

/-- A `dataStructureConverter` that appends a new object to the result or leaves it as it is. -/
abbrev DataStructureConverter := List Obj → Obj → Option Obj

def append (dataStructureConverter : DataStructureConverter) (accum : List Converted)
    (obj : Obj) : List Converted :=
  match dataStructureConverter (accum.map Converted.obj) obj with
  | some element => accum ++ [⟨element, 0⟩]
  | none => accum

/-- The loop with a converter; `none` is a row that is no object. -/
def convertLoop (dataStructureConverter : DataStructureConverter) :
    List Converted → List (Option Obj) → Except ConversionError (List Converted)
  | accum, [] => .ok accum
  | accum, none :: data => convertLoop dataStructureConverter accum data
  | accum, some obj :: data =>
      let accum := append dataStructureConverter accum obj
      -- the last of the result, and not what was just appended
      match accum.getLast? with
      | some converted =>
          convertLoop dataStructureConverter (accum.dropLast ++ [converted.deserialized]) data
      | none => .error .typeError

/-- `none` in the result is a row that is no object. -/
def convertData (dataStructureConverter : Option DataStructureConverter)
    (data : List (Option Obj)) : Except ConversionError (List (Option Converted)) :=
  match dataStructureConverter with
  | some converter => (convertLoop converter [] data).map fun accum => accum.map some
  | none => .ok (data.map fun row => row.map fun obj => Converted.deserialized ⟨obj, 0⟩)

/-- What is to be returned behind `kept`: the rows that the converter keeps, deserialised. -/
def keptRows (dataStructureConverter : DataStructureConverter) :
    List Obj → List (Option Obj) → List Obj
  | kept, [] => kept
  | kept, none :: data => keptRows dataStructureConverter kept data
  | kept, some obj :: data =>
      keptRows dataStructureConverter
        (kept ++ ((dataStructureConverter kept obj).map deserializeFields).toList) data

/-- Behind `kept`, the converter keeps every row that is an object. -/
def KeepsEach (dataStructureConverter : DataStructureConverter) (kept : List Obj)
    (data : List (Option Obj)) : Prop :=
  ∀ before obj after, data = before ++ some obj :: after →
    (dataStructureConverter (keptRows dataStructureConverter kept before) obj).isSome

/-- The converter keeps the first row that is an object. -/
def KeepsFirst (dataStructureConverter : DataStructureConverter) (data : List (Option Obj)) :
    Prop :=
  ∀ obj ∈ (data.filterMap id).head?, (dataStructureConverter [] obj).isSome

section Kept

variable {converter : DataStructureConverter} {kept : List Obj} {data : List (Option Obj)}

theorem keepsEach_nil : KeepsEach converter kept [] := by
  intro before obj after h
  simp at h

theorem keepsEach_none :
    KeepsEach converter kept (none :: data) ↔ KeepsEach converter kept data := by
  constructor
  · intro h before obj after hdata
    exact h (none :: before) obj after (by rw [hdata, List.cons_append])
  · intro h before obj after hdata
    cases before with
    | nil => simp at hdata
    | cons row before =>
      rw [List.cons_append, List.cons.injEq] at hdata
      obtain ⟨rfl, hdata⟩ := hdata
      exact h before obj after hdata

theorem keepsEach_some {obj : Obj} :
    KeepsEach converter kept (some obj :: data) ↔ (converter kept obj).isSome ∧
      KeepsEach converter (kept ++ ((converter kept obj).map deserializeFields).toList) data := by
  constructor
  · intro h
    constructor
    · exact h [] obj data rfl
    · intro before obj' after hdata
      exact h (some obj :: before) obj' after (by rw [hdata, List.cons_append])
  · rintro ⟨hobj, h⟩ before obj' after hdata
    cases before with
    | nil =>
      rw [List.nil_append, List.cons.injEq, Option.some.injEq] at hdata
      rw [← hdata.1]
      exact hobj
    | cons row before =>
      rw [List.cons_append, List.cons.injEq] at hdata
      obtain ⟨rfl, hdata⟩ := hdata
      exact h before obj' after hdata

theorem keepsFirst_of_keepsEach (h : KeepsEach converter [] data) : KeepsFirst converter data := by
  induction data with
  | nil => simp [KeepsFirst]
  | cons row data ih =>
    cases row with
    | none => exact ih (keepsEach_none.mp h)
    | some obj => simpa [KeepsFirst] using (keepsEach_some.mp h).1

end Kept

theorem deserializeFields_deserializeFields (o : Obj) :
    deserializeFields (deserializeFields o) = deserializeFields o := by
  unfold deserializeFields
  rw [List.map_map]
  apply List.map_congr_left
  intro entry _
  rw [Function.comp_apply, deserializeVal_deserializeVal]

section Loop

variable {converter : DataStructureConverter} {accum : List Converted}

/-- Reading the fields of the elements once more does not change them. -/
def Settled (accum : List Converted) : Prop :=
  ∀ element ∈ accum, deserializeFields element.obj = element.obj

theorem settled_concat {before : List Converted} {o : Obj} {passes : ℕ} (h : Settled before) :
    Settled (before ++ [⟨deserializeFields o, passes⟩]) := by
  intro element helement
  rcases List.mem_append.mp helement with helement | helement
  · exact h element helement
  · rw [List.mem_singleton.mp helement]
    exact deserializeFields_deserializeFields o

theorem convertLoop_kept {obj element : Obj} (data : List (Option Obj))
    (h : converter (accum.map Converted.obj) obj = some element) :
    convertLoop converter accum (some obj :: data) =
      convertLoop converter (accum ++ [⟨deserializeFields element, 1⟩]) data := by
  simp [convertLoop, append, h, Converted.deserialized]

theorem convertLoop_dropped_nil {obj : Obj} (data : List (Option Obj))
    (h : converter [] obj = none) :
    convertLoop converter [] (some obj :: data) = .error .typeError := by
  simp [convertLoop, append, h]

/-- A dropped row leaves its pass to the element before it. -/
theorem convertLoop_dropped {before : List Converted} {last : Converted} {obj : Obj}
    (data : List (Option Obj))
    (h : converter ((before ++ [last]).map Converted.obj) obj = none) :
    convertLoop converter (before ++ [last]) (some obj :: data) =
      convertLoop converter (before ++ [last.deserialized]) data := by
  simp only [convertLoop, append, h]
  simp

/-- Where something was kept, the loop comes to its end, and its values are right. -/
theorem convertLoop_of_ne_nil (hsettled : Settled accum) (hne : accum ≠ [])
    (data : List (Option Obj)) :
    ∃ rows, convertLoop converter accum data = .ok rows ∧
      rows.map Converted.obj = keptRows converter (accum.map Converted.obj) data := by
  induction data generalizing accum with
  | nil => exact ⟨accum, rfl, rfl⟩
  | cons row data ih =>
    cases row with
    | none => exact ih hsettled hne
    | some obj =>
      rw [keptRows]
      cases hobj : converter (accum.map Converted.obj) obj with
      | some element =>
        rw [convertLoop_kept data hobj]
        have hrows := @ih (accum ++ [⟨deserializeFields element, 1⟩]) (settled_concat hsettled)
          (by simp)
        rw [List.map_append] at hrows
        exact hrows
      | none =>
        obtain ⟨before, last, rfl⟩ := List.eq_nil_or_concat' accum |>.resolve_left hne
        rw [convertLoop_dropped data hobj]
        have hlast : last.deserialized.obj = last.obj := hsettled last (by simp)
        have hobjs : (before ++ [last.deserialized]).map Converted.obj =
            (before ++ [last]).map Converted.obj := by
          rw [List.map_append, List.map_append, List.map_singleton, List.map_singleton, hlast]
        have hrows := @ih (before ++ [last.deserialized])
          (settled_concat fun element helement => hsettled element (by simp [helement])) (by simp)
        rw [hobjs] at hrows
        simpa using hrows

theorem convertLoop_nil_iff (data : List (Option Obj)) :
    (∃ rows, convertLoop converter [] data = .ok rows ∧
      rows.map Converted.obj = keptRows converter [] data) ↔ KeepsFirst converter data := by
  induction data with
  | nil => exact iff_of_true ⟨[], rfl, rfl⟩ (by simp [KeepsFirst])
  | cons row data ih =>
    cases row with
    | none => exact ih
    | some obj =>
      have hfirst : KeepsFirst converter (some obj :: data) ↔ (converter [] obj).isSome := by
        simp [KeepsFirst]
      rw [hfirst, keptRows]
      cases hobj : converter [] obj with
      | some element =>
        rw [convertLoop_kept data hobj]
        apply iff_of_true _ rfl
        have hrows := @convertLoop_of_ne_nil converter _
          (@settled_concat [] element 1 (by simp [Settled])) (by simp) data
        simpa using hrows
      | none =>
        rw [convertLoop_dropped_nil data hobj]
        simp

/-- What has more than one pass keeps them. -/
theorem convertLoop_twice {rows : List Converted} {data : List (Option Obj)}
    (htwice : ∃ element ∈ accum, 1 < element.passes)
    (h : convertLoop converter accum data = .ok rows) : ∃ element ∈ rows, 1 < element.passes := by
  induction data generalizing accum with
  | nil =>
    rw [convertLoop, Except.ok.injEq] at h
    rw [← h]
    exact htwice
  | cons row data ih =>
    obtain ⟨element, helement, hpasses⟩ := htwice
    cases row with
    | none => exact ih ⟨element, helement, hpasses⟩ h
    | some obj =>
      cases hobj : converter (accum.map Converted.obj) obj with
      | some kept =>
        rw [convertLoop_kept data hobj] at h
        exact ih ⟨element, by simp [helement], hpasses⟩ h
      | none =>
        obtain ⟨before, last, rfl⟩ :=
          List.eq_nil_or_concat' accum |>.resolve_left (List.ne_nil_of_mem helement)
        rw [convertLoop_dropped data hobj] at h
        apply ih _ h
        rcases List.mem_append.mp helement with hbefore | hlast
        · exact ⟨element, by simp [hbefore], hpasses⟩
        · rw [List.mem_singleton.mp hlast] at hpasses
          exact ⟨last.deserialized, by simp, Nat.lt_succ_of_lt hpasses⟩

/-- Each element has one pass exactly if no row is dropped. -/
theorem convertLoop_once_iff (honce : ∀ element ∈ accum, element.passes = 1)
    (data : List (Option Obj)) :
    (∃ rows, convertLoop converter accum data = .ok rows ∧
      ∀ element ∈ rows, element.passes = 1) ↔
        KeepsEach converter (accum.map Converted.obj) data := by
  induction data generalizing accum with
  | nil => exact iff_of_true ⟨accum, rfl, honce⟩ keepsEach_nil
  | cons row data ih =>
    cases row with
    | none =>
      rw [keepsEach_none]
      exact ih honce
    | some obj =>
      rw [keepsEach_some]
      cases hobj : converter (accum.map Converted.obj) obj with
      | some element =>
        rw [convertLoop_kept data hobj, ih]
        · simp
        · intro element' helement
          rcases List.mem_append.mp helement with helement | helement
          · exact honce element' helement
          · rw [List.mem_singleton.mp helement]
      | none =>
        apply iff_of_false
        · rintro ⟨rows, hrows, hpasses⟩
          rcases List.eq_nil_or_concat' accum with rfl | ⟨before, last, rfl⟩
          · rw [convertLoop_dropped_nil data hobj] at hrows
            simp at hrows
          · rw [convertLoop_dropped data hobj] at hrows
            have hlast : 1 < last.deserialized.passes := by
              simp [Converted.deserialized, honce last (by simp)]
            obtain ⟨element, helement, htwice⟩ :=
              convertLoop_twice ⟨last.deserialized, by simp, hlast⟩ hrows
            rw [hpasses element helement] at htwice
            exact absurd htwice (lt_irrefl 1)
        · simp

end Loop

theorem convertData_eq_ok_iff {dataStructureConverter : DataStructureConverter}
    {data : List (Option Obj)} {rows : List Converted} :
    convertData (some dataStructureConverter) data = .ok (rows.map some) ↔
      convertLoop dataStructureConverter [] data = .ok rows := by
  rw [convertData]
  cases convertLoop dataStructureConverter [] data with
  | error e => simp [Except.map]
  | ok accum => simp [Except.map, (List.map_injective_iff.mpr (Option.some_injective _)).eq_iff]

/-- The kept rows come back, each with one pass, exactly if the converter drops none; they come
back at all exactly if the converter does not drop the first. -/
theorem convertData_iff (dataStructureConverter : DataStructureConverter)
    (data : List (Option Obj)) :
    ((∃ rows : List Converted,
        convertData (some dataStructureConverter) data = .ok (rows.map some) ∧
        rows.map Converted.obj = keptRows dataStructureConverter [] data ∧
        ∀ row ∈ rows, row.passes = 1) ↔ KeepsEach dataStructureConverter [] data) ∧
      ((∃ rows : List Converted,
        convertData (some dataStructureConverter) data = .ok (rows.map some) ∧
        rows.map Converted.obj = keptRows dataStructureConverter [] data) ↔
          KeepsFirst dataStructureConverter data) := by
  have honce := @convertLoop_once_iff dataStructureConverter [] (by simp) data
  simp only [convertData_eq_ok_iff]
  refine ⟨?_, convertLoop_nil_iff data⟩
  constructor
  · rintro ⟨rows, hrows, -, hpasses⟩
    exact honce.mp ⟨rows, hrows, hpasses⟩
  · intro hkeeps
    obtain ⟨rows, hrows, hpasses⟩ := honce.mpr hkeeps
    have hfirst : KeepsFirst dataStructureConverter data := keepsFirst_of_keepsEach hkeeps
    obtain ⟨rows', hrows', hobjs⟩ := (convertLoop_nil_iff data).mpr hfirst
    rw [hrows, Except.ok.injEq] at hrows'
    rw [← hrows'] at hobjs
    exact ⟨rows, hrows, hobjs, hpasses⟩

end FindInCollBy

namespace BalanceHistory

/-- The length of a string in code units. -/
def codeUnits (s : String) : ℕ := (s.toList.map fun c => if c.toNat < 0x10000 then 1 else 2).sum

/-- The converter of the wallets: a row without a type, a finite balance or a currency of three
letters at least leaves the result as it is. -/
def dataStructureConverter : FindInCollBy.DataStructureConverter := fun _ row =>
  match row.get "wallet", row.get "balance", row.get "currency" with
  | .str type, .num balance, .str currency =>
      if type = "" ∨ codeUnits currency < 3 then none
      else some
        [("type", .str type), ("currency", .str currency), ("balance", .num balance),
          ("balanceUsd", row.get "balanceUsd"), ("timeframe", row.get "timeframe"),
          ("mtsUpdate", row.get "mts")]
  | _, _, _ => none

end BalanceHistory

namespace ConvertDataWitness

open FindInCollBy

/-- A wallet whose balance is unknown. -/
def wallet : Obj :=
  [("wallet", .str "exchange"), ("currency", .str "USD"), ("balance", .null), ("mts", .num 1)]

theorem convertData_throws :
    convertData (some BalanceHistory.dataStructureConverter) [some wallet] = .error .typeError ∧
      keptRows BalanceHistory.dataStructureConverter [] [some wallet] = [] := ⟨rfl, rfl⟩

end ConvertDataWitness

end ReportsFramework
