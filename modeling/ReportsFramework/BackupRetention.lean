/-
The clean-up of the backup files behind a backup of the database: which files are kept, and
which are removed.
-/
import Mathlib.Data.List.Perm.Subperm
import Mathlib.Tactic.Tauto
import ReportsFramework.OrderBy

namespace ReportsFramework

/-- What a file name tells of a backup, and where the file is. -/
structure BackupFile where
  name : String
  filePath : String
  version : ℕ
  mts : ℤ
deriving DecidableEq

namespace BackupFile

def toVal (m : BackupFile) : Js.Val :=
  .obj [("name", .str m.name), ("filePath", .str m.filePath), ("version", .num m.version),
    ("mts", .num m.mts)]

/-- The order of the files by `version` and `mts`, both `desc`. -/
def newerFirst (m m' : BackupFile) : Prop :=
  m'.version < m.version ∨ (m'.version = m.version ∧ m'.mts ≤ m.mts)

end BackupFile

namespace DBBackupManager

open OrderBy

/-- The files with a version in their names, ordered. -/
def getBackupFilesMetadata (files : List BackupFile) : List BackupFile :=
  orderObjects BackupFile.toVal files [.path "version", .path "mts"] ["desc", "desc"]

/-- The first file of each version. -/
def getFirstUniqFilesByVer (metadata : List BackupFile) : List BackupFile :=
  (metadata.foldl (fun (accum : List BackupFile × List ℕ) curr =>
    if curr.version ∉ accum.2 then (accum.1 ++ [curr], accum.2 ++ [curr.version])
    else accum) ([], [])).1

/-- The limits that the files kept so far leave for one more. -/
def isWithinLimits (excludedFiles : List BackupFile) (metadata : BackupFile) : Bool :=
  ((getFirstUniqFilesByVer excludedFiles).filter fun m =>
      m.version ≠ metadata.version).length < 2 &&
    (excludedFiles.filter fun m => m.version = metadata.version &&
      excludedFiles.head?.map BackupFile.version ≠ some m.version).length < 1 &&
    (excludedFiles.filter fun m => m.version = metadata.version &&
      excludedFiles.head?.map BackupFile.version = some m.version).length < 2

structure ManagedFiles where
  removedFiles : List BackupFile
  excludedFiles : List BackupFile
deriving DecidableEq

def manageLoop (i : ℕ) (res : ManagedFiles) : List BackupFile → ManagedFiles
  | [] => res
  | metadata :: rest =>
      if i = 0 || isWithinLimits res.excludedFiles metadata then
        manageLoop (i + 1) { res with excludedFiles := res.excludedFiles ++ [metadata] } rest
      else manageLoop (i + 1) { res with removedFiles := res.removedFiles ++ [metadata] } rest

def manageDBBackupFiles (files : List BackupFile) : ManagedFiles :=
  manageLoop 0 ⟨[], []⟩ (getBackupFilesMetadata files)

/-- The highest version of the files. -/
def IsLatest (files : List BackupFile) (version : ℕ) : Prop :=
  (∃ m ∈ files, m.version = version) ∧ ∀ m ∈ files, m.version ≤ version

/-- The next lower version. -/
def IsPrevious (files : List BackupFile) (version : ℕ) : Prop :=
  (∃ m ∈ files, m.version = version) ∧
    ∃ latest, IsLatest files latest ∧ version < latest ∧
      ∀ m ∈ files, m.version < latest → m.version ≤ version

def ofVersion (files : List BackupFile) (version : ℕ) : List BackupFile :=
  files.filter fun m => m.version = version

section Uniq

variable {metadata : List BackupFile}

theorem foldl_uniq (metadata : List BackupFile) (accum : List BackupFile × List ℕ)
    (hkeys : accum.1.map BackupFile.version = accum.2) (hnodup : accum.2.Nodup) :
    let res := metadata.foldl (fun (accum : List BackupFile × List ℕ) curr =>
      if curr.version ∉ accum.2 then (accum.1 ++ [curr], accum.2 ++ [curr.version])
      else accum) accum
    res.1.map BackupFile.version = res.2 ∧ res.2.Nodup ∧
      ∀ version, version ∈ res.2 ↔
        version ∈ accum.2 ∨ version ∈ metadata.map BackupFile.version := by
  induction metadata generalizing accum with
  | nil => simp [hkeys, hnodup]
  | cons curr rest ih =>
      rw [List.foldl_cons]
      by_cases hmem : curr.version ∈ accum.2
      · rw [if_neg (by simpa using hmem)]
        obtain ⟨hmap, hdistinct, hall⟩ := ih accum hkeys hnodup
        refine ⟨hmap, hdistinct, ?_⟩
        intro version
        rw [hall, List.map_cons, List.mem_cons]
        constructor
        · tauto
        · rintro (h | rfl | h)
          · exact .inl h
          · exact .inl hmem
          · exact .inr h
      · rw [if_pos hmem]
        obtain ⟨hmap, hdistinct, hall⟩ := ih (accum.1 ++ [curr], accum.2 ++ [curr.version])
          (by simp [hkeys]) (List.nodup_append.mpr ⟨hnodup, by simp, by
            intro version h version' h'
            rw [List.mem_singleton.mp h']
            rintro rfl
            exact hmem h⟩)
        refine ⟨hmap, hdistinct, ?_⟩
        intro version
        rw [hall, List.map_cons, List.mem_cons, List.mem_append, List.mem_singleton]
        tauto

theorem nodup_uniq (metadata : List BackupFile) :
    ((getFirstUniqFilesByVer metadata).map BackupFile.version).Nodup := by
  obtain ⟨hmap, hnodup, -⟩ := foldl_uniq metadata ([], []) rfl List.nodup_nil
  unfold getFirstUniqFilesByVer
  rw [hmap]
  exact hnodup

theorem mem_uniq {version : ℕ} :
    version ∈ (getFirstUniqFilesByVer metadata).map BackupFile.version ↔
      version ∈ metadata.map BackupFile.version := by
  obtain ⟨hmap, -, hall⟩ := foldl_uniq metadata ([], []) rfl List.nodup_nil
  unfold getFirstUniqFilesByVer
  rw [hmap, hall]
  simp

/-- Among the first files of two versions at most one is of another version than these. -/
theorem length_uniq_lt {latest version : ℕ}
    (h : ∀ m ∈ metadata, m.version = latest ∨ m.version = version) :
    ((getFirstUniqFilesByVer metadata).filter fun m => m.version ≠ version).length < 2 := by
  have hnodup := (nodup_uniq metadata).sublist
    (List.Sublist.map BackupFile.version
      (List.filter_sublist (p := fun m : BackupFile => m.version ≠ version)))
  have hall : ∀ v ∈ ((getFirstUniqFilesByVer metadata).filter fun m =>
      m.version ≠ version).map BackupFile.version, v = latest := by
    intro v hv
    obtain ⟨m, hm, rfl⟩ := List.mem_map.mp hv
    obtain ⟨hmem, hne⟩ := List.mem_filter.mp hm
    obtain ⟨m', hm', heq⟩ := List.mem_map.mp (mem_uniq.mp (List.mem_map_of_mem hmem))
    rcases h m' hm' with h | h
    · rw [← heq, h]
    · rw [heq] at h
      simp [h] at hne
  have hsub : (((getFirstUniqFilesByVer metadata).filter fun m =>
      m.version ≠ version).map BackupFile.version) ⊆ [latest] := by
    intro v hv
    rw [hall v hv]
    exact List.mem_singleton_self latest
  have hle := (hnodup.subperm hsub).length_le
  rw [List.length_map] at hle
  exact Nat.lt_succ_of_le hle

/-- Two other versions leave no room for a third one. -/
theorem two_le_length_uniq {latest previous version : ℕ} (hne : latest ≠ previous)
    (hlatest : latest ∈ metadata.map BackupFile.version) (hlatestNe : latest ≠ version)
    (hprevious : previous ∈ metadata.map BackupFile.version)
    (hpreviousNe : previous ≠ version) :
    2 ≤ ((getFirstUniqFilesByVer metadata).filter fun m => m.version ≠ version).length := by
  have hsub : [latest, previous] ⊆ ((getFirstUniqFilesByVer metadata).filter fun m =>
      m.version ≠ version).map BackupFile.version := by
    intro v hv
    have hmem : v ∈ metadata.map BackupFile.version ∧ v ≠ version := by
      rcases List.mem_pair.mp hv with rfl | rfl
      · exact ⟨hlatest, hlatestNe⟩
      · exact ⟨hprevious, hpreviousNe⟩
    obtain ⟨m, hm, rfl⟩ := List.mem_map.mp (mem_uniq.mpr hmem.1)
    exact List.mem_map_of_mem (List.mem_filter.mpr ⟨hm, by simpa using hmem.2⟩)
  have hnodup : [latest, previous].Nodup := by simp [hne]
  have hle := (hnodup.subperm hsub).length_le
  simpa using hle

end Uniq

section Loop

variable {kept rest : List BackupFile} {i : ℕ} {res : ManagedFiles}

/-- Where the limits leave room for `n` files of a kind, the loop keeps the first `n`. -/
theorem manageLoop_append {P : BackupFile → Prop} {n : ℕ}
    (hlimits : ∀ xs m, (∀ x ∈ xs, P x) → P m →
      (isWithinLimits (kept ++ xs) m = true ↔ xs.length < n))
    {xs files : List BackupFile} (hi : i ≠ 0) (hkept : res.excludedFiles = kept ++ xs)
    (hxs : ∀ x ∈ xs, P x) (hfiles : ∀ m ∈ files, P m) :
    ∃ j, j ≠ 0 ∧ manageLoop i res (files ++ rest) =
      manageLoop j ⟨res.removedFiles ++ files.drop (n - xs.length),
        kept ++ (xs ++ files.take (n - xs.length))⟩ rest := by
  induction files generalizing i res xs with
  | nil =>
      refine ⟨i, hi, ?_⟩
      rw [List.nil_append, List.drop_nil, List.take_nil, List.append_nil, List.append_nil,
        ← hkept]
  | cons m files ih =>
      obtain ⟨hm, hfiles⟩ := List.forall_mem_cons.mp hfiles
      have hiff := hlimits xs m hxs hm
      rw [List.cons_append, manageLoop, hkept]
      by_cases hroom : xs.length < n
      · obtain ⟨k, hk⟩ : ∃ k, n - xs.length = k + 1 := ⟨n - xs.length - 1, by omega⟩
        have hnext : n - (xs ++ [m]).length = k := by
          rw [List.length_append, List.length_singleton]
          omega
        obtain ⟨j, hj, heq⟩ := @ih (i + 1)
          { res with excludedFiles := kept ++ xs ++ [m] } (xs ++ [m])
          (Nat.succ_ne_zero i) (List.append_assoc _ _ _)
          (by
            intro x hx
            rcases List.mem_append.mp hx with hx | hx
            · exact hxs x hx
            · rw [List.mem_singleton.mp hx]
              exact hm) hfiles
        refine ⟨j, hj, ?_⟩
        rw [if_pos (by simp [hiff.mpr hroom]), heq, hnext, hk, List.drop_succ_cons,
          List.take_succ_cons, List.append_assoc xs, List.singleton_append]
      · have hnone : n - xs.length = 0 := by omega
        have hfull : isWithinLimits (kept ++ xs) m = false := by
          rw [Bool.eq_false_iff]
          intro htrue
          exact hroom (hiff.mp htrue)
        obtain ⟨j, hj, heq⟩ := @ih (i + 1) ⟨res.removedFiles ++ [m], kept ++ xs⟩ xs
          (Nat.succ_ne_zero i) rfl hxs hfiles
        refine ⟨j, hj, ?_⟩
        rw [if_neg (by simp [hi, hfull]), heq, hnone]
        simp

/-- Behind a first file of the latest version there is room for one more. -/
theorem isWithinLimits_latest {first m : BackupFile} {latest : ℕ} {xs : List BackupFile}
    (hfirst : first.version = latest) (hxs : ∀ x ∈ xs, x.version = latest)
    (hm : m.version = latest) :
    isWithinLimits ([first] ++ xs) m = true ↔ xs.length < 1 := by
  have hversion : ∀ x ∈ [first] ++ xs, x.version = latest := by
    intro x hx
    rcases List.mem_append.mp hx with hx | hx
    · rw [List.mem_singleton.mp hx, hfirst]
    · exact hxs x hx
  have huniq := @length_uniq_lt ([first] ++ xs) latest m.version fun x hx => .inl (hversion x hx)
  have hsame : (([first] ++ xs).filter fun x => x.version = m.version &&
      ([first] ++ xs).head?.map BackupFile.version = some x.version) = [first] ++ xs := by
    apply List.filter_eq_self.mpr
    intro x hx
    simp [hversion x hx, hm, hfirst]
  have hother : (([first] ++ xs).filter fun x => x.version = m.version &&
      ([first] ++ xs).head?.map BackupFile.version ≠ some x.version) = [] := by
    apply List.filter_eq_nil_iff.mpr
    intro x hx
    simp [hversion x hx, hfirst]
  unfold isWithinLimits
  rw [hsame, hother, decide_eq_true huniq]
  simp only [List.length_nil, List.length_append, List.length_singleton, Nat.zero_lt_one,
    decide_true, Bool.true_and, decide_eq_true_eq]
  omega

/-- Behind the files of the latest version there is room for one of the next. -/
theorem isWithinLimits_previous {first m : BackupFile} {more xs : List BackupFile}
    {latest previous : ℕ} (hne : latest ≠ previous) (hfirst : first.version = latest)
    (hmore : ∀ x ∈ more, x.version = latest) (hxs : ∀ x ∈ xs, x.version = previous)
    (hm : m.version = previous) :
    isWithinLimits (first :: more ++ xs) m = true ↔ xs.length < 1 := by
  have hkept : ∀ x ∈ first :: more, x.version = latest :=
    List.forall_mem_cons.mpr ⟨hfirst, hmore⟩
  have huniq := @length_uniq_lt (first :: more ++ xs) latest m.version (by
    intro x hx
    rcases List.mem_append.mp hx with hx | hx
    · exact .inl (hkept x hx)
    · exact .inr ((hxs x hx).trans hm.symm))
  have hhead : (first :: more ++ xs).head?.map BackupFile.version = some latest := by
    simp [hfirst]
  have hsame : ((first :: more ++ xs).filter fun x => x.version = m.version &&
      (first :: more ++ xs).head?.map BackupFile.version = some x.version) = [] := by
    apply List.filter_eq_nil_iff.mpr
    intro x _
    simp only [hhead, hm, Bool.and_eq_true, decide_eq_true_eq, Option.some.injEq]
    rintro ⟨hx, hx'⟩
    exact hne (hx'.trans hx)
  have hother : ((first :: more ++ xs).filter fun x => x.version = m.version &&
      (first :: more ++ xs).head?.map BackupFile.version ≠ some x.version) = xs := by
    rw [hhead, List.filter_append, List.filter_eq_nil_iff.mpr, List.nil_append]
    · apply List.filter_eq_self.mpr
      intro x hx
      simp [hxs x hx, hm, hne]
    · intro x hx
      simp [hkept x hx]
  unfold isWithinLimits
  rw [hsame, hother, decide_eq_true huniq]
  simp

/-- Behind files of two versions there is no room for lower ones. -/
theorem isWithinLimits_lower {first second m : BackupFile} {more xs : List BackupFile}
    {latest previous : ℕ} (hlt : previous < latest) (hfirst : first.version = latest)
    (hsecond : second.version = previous) (hm : m.version < previous) :
    isWithinLimits (first :: more ++ [second] ++ xs) m = false := by
  have huniq := @two_le_length_uniq (first :: more ++ [second] ++ xs) latest previous m.version
    hlt.ne' (by simp [hfirst]) (by omega) (by simp [hsecond]) hm.ne'
  unfold isWithinLimits
  rw [decide_eq_false (by omega)]
  rfl

/-- The files of the latest version, of the next lower one, and the others. -/
theorem manageLoop_eq {first : BackupFile} {more second others : List BackupFile}
    {latest previous : ℕ} (hfirst : first.version = latest)
    (hmore : ∀ m ∈ more, m.version = latest) (hsecond : ∀ m ∈ second, m.version = previous)
    (hothers : ∀ m ∈ others, m.version < previous) (hlt : second ≠ [] → previous < latest)
    (hnone : second = [] → others = []) :
    manageLoop 0 ⟨[], []⟩ (first :: (more ++ (second ++ others))) =
      ⟨more.drop 1 ++ second.drop 1 ++ others, first :: more.take 1 ++ second.take 1⟩ := by
  obtain ⟨i, hi, heq⟩ := @manageLoop_append [first] (second ++ others) 1 ⟨[], [first]⟩
    (fun m => m.version = latest) 1 (fun xs m hxs hm => isWithinLimits_latest hfirst hxs hm)
    [] more Nat.one_ne_zero rfl (by simp) hmore
  have hstart : manageLoop 0 ⟨[], []⟩ (first :: (more ++ (second ++ others))) =
      manageLoop 1 ⟨[], [first]⟩ (more ++ (second ++ others)) := rfl
  rw [hstart, heq]
  simp only [List.nil_append, List.length_nil, Nat.sub_zero, List.singleton_append]
  by_cases hempty : second = []
  · subst hempty
    rw [hnone rfl]
    simp [manageLoop]
  · have hmore' : ∀ m ∈ more.take 1, m.version = latest := fun m hm =>
      hmore m (List.mem_of_mem_take hm)
    obtain ⟨j, hj, heq'⟩ := @manageLoop_append (first :: more.take 1) others i
      ⟨more.drop 1, first :: more.take 1⟩ (fun m => m.version = previous) 1
      (fun xs m hxs hm =>
        isWithinLimits_previous (hlt hempty).ne' hfirst hmore' hxs hm)
      [] second hi (List.append_nil _).symm (by simp) hsecond
    rw [heq']
    simp only [List.nil_append, List.length_nil, Nat.sub_zero]
    obtain ⟨newest, older, rfl⟩ := List.exists_cons_of_ne_nil hempty
    have hnewest := hsecond newest List.mem_cons_self
    obtain ⟨k, hk, heq''⟩ := @manageLoop_append (first :: more.take 1 ++ [newest]) [] j
      ⟨more.drop 1 ++ older, first :: more.take 1 ++ [newest]⟩ (fun m => m.version < previous) 0
      (by
        intro xs m _ hm
        rw [isWithinLimits_lower (hlt hempty) hfirst hnewest hm]
        simp)
      [] others hj (List.append_nil _).symm (by simp) hothers
    rw [List.append_nil] at heq''
    simp only [List.drop_succ_cons, List.drop_zero, List.take_succ_cons, List.take_zero]
    rw [heq'']
    simp [manageLoop]

end Loop

section Sorted

theorem undefined_notMem (files : List BackupFile) :
    Js.Val.undefined ∉ files.map BackupFile.toVal := by
  intro hmem
  obtain ⟨m, -, hm⟩ := List.mem_map.mp hmem
  cases hm

theorem value_version (m : BackupFile) :
    (Iteratee.path "version").value m.toVal = .num m.version := rfl

theorem value_mts (m : BackupFile) : (Iteratee.path "mts").value m.toVal = .num m.mts := rfl

theorem keyCompare_num (x y : ℚ) :
    keyCompare (-1) (.num x) (.num y) = if y < x then -1 else if x < y then 1 else 0 := by
  simp [keyCompare, isNullish, lessThan]

theorem newerFirst_of_lexCompare {m m' : BackupFile}
    (h : lexCompare [.path "version", .path "mts"] ["desc", "desc"] m.toVal m'.toVal ≤ 0) :
    m.newerFirst m' := by
  have hdirection : direction (some "desc") = -1 := rfl
  simp only [lexCompare, Comparator.lex, List.head?_cons, List.tail_cons, hdirection,
    value_version, value_mts, keyCompare_num, Rat.natCast_lt_natCast, Rat.intCast_lt_intCast] at h
  unfold BackupFile.newerFirst
  split_ifs at h <;> omega

theorem ordersStably_files (files : List BackupFile) :
    OrdersStably (files.map BackupFile.toVal) [.path "version", .path "mts"] ["desc", "desc"] := by
  have hvalue : ∀ iteratee ∈ [Iteratee.path "version", .path "mts"],
      ∀ a ∈ files.map BackupFile.toVal, ∃ x, iteratee.value a = .num x := by
    intro iteratee hiteratee a ha
    obtain ⟨m, -, rfl⟩ := List.mem_map.mp ha
    rcases List.mem_pair.mp hiteratee with rfl | rfl
    · exact ⟨_, value_version m⟩
    · exact ⟨_, value_mts m⟩
  apply ordersStably_of_unmixed
  · exact undefined_notMem files
  · exact fun iteratee hiteratee => .inl fun a ha => .inr (hvalue iteratee hiteratee a ha)
  · intro a ha b hb hmixes
    obtain ⟨m, -, rfl⟩ := List.mem_map.mp ha
    obtain ⟨m', -, rfl⟩ := List.mem_map.mp hb
    simp [MixesNulls, value_version, value_mts, isMixed] at hmixes

theorem getBackupFilesMetadata_perm (files : List BackupFile) :
    (getBackupFilesMetadata files).Perm files :=
  Comparator.sort_perm _ files

theorem pairwise_getBackupFilesMetadata (files : List BackupFile) :
    (getBackupFilesMetadata files).Pairwise BackupFile.newerFirst := by
  have hsorted := (ordersStably_files files).pairwise_orderObjects (undefined_notMem files)
  exact hsorted.imp newerFirst_of_lexCompare

/-- Where a property holds of a first part of a list, the list is that part and the rest. -/
theorem filter_append_filter_not {α : Type*} {p : α → Bool} {l : List α}
    (h : l.Pairwise fun x y => p y = true → p x = true) :
    l.filter p ++ l.filter (fun x => !p x) = l := by
  induction l with
  | nil => rfl
  | cons x rest ih =>
      obtain ⟨hx, hrest⟩ := List.pairwise_cons.mp h
      cases hp : p x with
      | true => rw [List.filter_cons_of_pos hp, List.filter_cons_of_neg (by simp [hp]),
          List.cons_append, ih hrest]
      | false =>
          have hnone : rest.filter p = [] := by
            apply List.filter_eq_nil_iff.mpr
            intro y hy hpy
            rw [hx y hy hpy] at hp
            cases hp
          have hall : rest.filter (fun x => !p x) = rest := by
            have := ih hrest
            rwa [hnone, List.nil_append] at this
          rw [List.filter_cons_of_neg (by simp [hp]), List.filter_cons_of_pos (by simp [hp]),
            hnone, hall, List.nil_append]

theorem rel_of_take_of_drop {α : Type*} {r : α → α → Prop} {l : List α} {n : ℕ} {x y : α}
    (h : l.Pairwise r) (hx : x ∈ l.take n) (hy : y ∈ l.drop n) : r x y := by
  rw [← List.take_append_drop n l] at h
  exact (List.pairwise_append.mp h).2.2 x hx y hy

variable {files : List BackupFile}

/-- The sorted files as the loop meets them: those of the latest version, those of the next
lower one, and the others. -/
structure Parts (files : List BackupFile) (first : BackupFile)
    (more second others : List BackupFile) (previous : ℕ) : Prop where
  sorted : getBackupFilesMetadata files = first :: (more ++ (second ++ others))
  more_eq : ∀ m ∈ more, m.version = first.version
  second_eq : ∀ m ∈ second, m.version = previous
  others_lt : ∀ m ∈ others, m.version < previous
  previous_lt : second ≠ [] → previous < first.version
  others_eq : second = [] → others = []

theorem exists_parts (hfiles : files ≠ []) :
    ∃ first more second others previous, Parts files first more second others previous := by
  have hsorted := pairwise_getBackupFilesMetadata files
  have hne : getBackupFilesMetadata files ≠ [] := by
    intro h
    apply hfiles
    have hperm := getBackupFilesMetadata_perm files
    rw [h] at hperm
    exact List.nil_perm.mp hperm
  obtain ⟨first, rest, heq⟩ := List.exists_cons_of_ne_nil hne
  rw [heq] at hsorted
  obtain ⟨hfirst, hrest⟩ := List.pairwise_cons.mp hsorted
  have hle : ∀ m ∈ rest, m.version ≤ first.version := by
    intro m hm
    have horder := hfirst m hm
    unfold BackupFile.newerFirst at horder
    omega
  have hmore := @filter_append_filter_not _ (fun m : BackupFile => m.version = first.version) rest
    (hrest.imp_of_mem (by
      intro m m' hm _ horder hm'
      have hm := hle m hm
      unfold BackupFile.newerFirst at horder
      simp only [decide_eq_true_eq] at hm' ⊢
      omega))
  generalize hlower : rest.filter (fun m => !decide (m.version = first.version)) = lower at hmore
  have hlowerSorted : lower.Pairwise BackupFile.newerFirst := by
    rw [← hlower]
    exact hrest.sublist List.filter_sublist
  have hlowerLt : ∀ m ∈ lower, m.version < first.version := by
    intro m hm
    rw [← hlower, List.mem_filter] at hm
    have hle := hle m hm.1
    have hne : m.version ≠ first.version := by simpa using hm.2
    omega
  have hmoreEq : ∀ m ∈ rest.filter (fun m => decide (m.version = first.version)),
      m.version = first.version := by
    intro m hm
    simpa using (List.mem_filter.mp hm).2
  cases hcases : lower with
  | nil =>
      refine ⟨first, rest.filter fun m => m.version = first.version, [], [], 0, ?_⟩
      refine ⟨?_, hmoreEq, by simp, by simp, by simp, by simp⟩
      rw [hcases, List.append_nil] at hmore
      rw [List.append_nil, List.append_nil, hmore, heq]
  | cons second others =>
      rw [hcases] at hlowerSorted hlowerLt hmore
      obtain ⟨hsecond, hothers⟩ := List.pairwise_cons.mp hlowerSorted
      have hleSecond : ∀ m ∈ others, m.version ≤ second.version := by
        intro m hm
        have horder := hsecond m hm
        unfold BackupFile.newerFirst at horder
        omega
      have hsplit := @filter_append_filter_not _
        (fun m : BackupFile => m.version = second.version) others
        (hothers.imp_of_mem (by
          intro m m' hm _ horder hm'
          have hm := hleSecond m hm
          unfold BackupFile.newerFirst at horder
          simp only [decide_eq_true_eq] at hm' ⊢
          omega))
      refine ⟨first, rest.filter fun m => m.version = first.version,
        second :: others.filter (fun m => m.version = second.version),
        others.filter (fun m => !decide (m.version = second.version)), second.version, ?_⟩
      refine ⟨?_, hmoreEq, ?_, ?_, ?_, by simp⟩
      · rw [List.cons_append, hsplit, hmore, heq]
      · intro m hm
        rcases List.mem_cons.mp hm with rfl | hm
        · rfl
        · simpa using (List.mem_filter.mp hm).2
      · intro m hm
        obtain ⟨hm, hne⟩ := List.mem_filter.mp hm
        have hle := hleSecond m hm
        have hne : m.version ≠ second.version := by simpa using hne
        omega
      · intro _
        exact hlowerLt second List.mem_cons_self

theorem ofVersion_eq_self {version : ℕ} (h : ∀ m ∈ files, m.version = version) :
    ofVersion files version = files := by
  apply List.filter_eq_self.mpr
  intro m hm
  simpa using h m hm

theorem ofVersion_eq_nil {version : ℕ} (h : ∀ m ∈ files, m.version ≠ version) :
    ofVersion files version = [] := by
  apply List.filter_eq_nil_iff.mpr
  intro m hm
  simpa using h m hm

theorem ofVersion_append (files files' : List BackupFile) (version : ℕ) :
    ofVersion (files ++ files') version = ofVersion files version ++ ofVersion files' version :=
  List.filter_append files files'

theorem isLatest_unique {latest version : ℕ} (h : IsLatest files latest)
    (h' : IsLatest files version) : version = latest := by
  obtain ⟨m, hm, rfl⟩ := h.1
  obtain ⟨m', hm', rfl⟩ := h'.1
  exact Nat.le_antisymm (h.2 m' hm') (h'.2 m hm)

namespace Parts

variable {first : BackupFile} {more second others : List BackupFile} {previous : ℕ}

theorem managed (h : Parts files first more second others previous) :
    manageDBBackupFiles files =
      ⟨more.drop 1 ++ second.drop 1 ++ others, first :: more.take 1 ++ second.take 1⟩ := by
  unfold manageDBBackupFiles
  rw [h.sorted]
  exact manageLoop_eq rfl h.more_eq h.second_eq h.others_lt h.previous_lt h.others_eq

theorem perm (h : Parts files first more second others previous) :
    (first :: (more ++ (second ++ others))).Perm files := by
  rw [← h.sorted]
  exact getBackupFilesMetadata_perm files

theorem ordered (h : Parts files first more second others previous) :
    (first :: (more ++ (second ++ others))).Pairwise BackupFile.newerFirst := by
  rw [← h.sorted]
  exact pairwise_getBackupFilesMetadata files

theorem mem_iff (h : Parts files first more second others previous) {m : BackupFile} :
    m ∈ files ↔ m ∈ first :: more ∨ m ∈ second ∨ m ∈ others := by
  rw [← h.perm.mem_iff, ← List.cons_append, List.mem_append, List.mem_append]

theorem latest_eq (h : Parts files first more second others previous) {m : BackupFile}
    (hm : m ∈ first :: more) : m.version = first.version := by
  rcases List.mem_cons.mp hm with rfl | hm
  · rfl
  · exact h.more_eq m hm

theorem second_lt (h : Parts files first more second others previous) {m : BackupFile}
    (hm : m ∈ second) : m.version < first.version := by
  rw [h.second_eq m hm]
  exact h.previous_lt (List.ne_nil_of_mem hm)

theorem others_lt_latest (h : Parts files first more second others previous) {m : BackupFile}
    (hm : m ∈ others) : m.version < first.version := by
  apply (h.others_lt m hm).trans
  apply h.previous_lt
  intro hnone
  rw [h.others_eq hnone] at hm
  cases hm

theorem isLatest (h : Parts files first more second others previous) :
    IsLatest files first.version := by
  constructor
  · exact ⟨first, h.mem_iff.mpr (.inl List.mem_cons_self), rfl⟩
  · intro m hm
    rcases h.mem_iff.mp hm with hm | hm | hm
    · exact (h.latest_eq hm).le
    · exact (h.second_lt hm).le
    · exact (h.others_lt_latest hm).le

theorem isPrevious_iff (h : Parts files first more second others previous) {version : ℕ} :
    IsPrevious files version ↔ second ≠ [] ∧ version = previous := by
  constructor
  · rintro ⟨⟨m, hm, rfl⟩, latest, hlatest, hlt, hbelow⟩
    obtain rfl := isLatest_unique hlatest h.isLatest
    rcases h.mem_iff.mp hm with hm | hm | hm
    · rw [h.latest_eq hm] at hlt
      omega
    · exact ⟨List.ne_nil_of_mem hm, h.second_eq m hm⟩
    · exfalso
      have hne : second ≠ [] := by
        intro hnone
        rw [h.others_eq hnone] at hm
        cases hm
      obtain ⟨m', rest, rfl⟩ := List.exists_cons_of_ne_nil hne
      have hle := hbelow m' (h.mem_iff.mpr (.inr (.inl List.mem_cons_self)))
        (h.second_lt List.mem_cons_self)
      rw [h.second_eq m' List.mem_cons_self] at hle
      have := h.others_lt m hm
      omega
  · rintro ⟨hne, rfl⟩
    obtain ⟨m, rest, rfl⟩ := List.exists_cons_of_ne_nil hne
    refine ⟨⟨m, h.mem_iff.mpr (.inr (.inl List.mem_cons_self)),
      h.second_eq m List.mem_cons_self⟩,
      first.version, h.isLatest, h.previous_lt hne, ?_⟩
    intro m' hm' hlt
    rcases h.mem_iff.mp hm' with hm' | hm' | hm'
    · rw [h.latest_eq hm'] at hlt
      omega
    · exact (h.second_eq m' hm').le
    · exact (h.others_lt m' hm').le

/-- The files of the latest version, among all of them. -/
theorem ofVersion_latest (h : Parts files first more second others previous) :
    (ofVersion files first.version).Perm (first :: more) := by
  have hperm : (ofVersion (first :: (more ++ (second ++ others))) first.version).Perm
      (ofVersion files first.version) := h.perm.filter _
  refine hperm.symm.trans ?_
  have hrest : ofVersion (second ++ others) first.version = [] := by
    apply ofVersion_eq_nil
    intro m hm
    rcases List.mem_append.mp hm with hm | hm
    · exact (h.second_lt hm).ne
    · exact (h.others_lt_latest hm).ne
  rw [← List.cons_append, ofVersion_append, hrest, List.append_nil,
    ofVersion_eq_self fun m hm => h.latest_eq hm]

end Parts

/-- Of the highest version two files are kept, or the one there is, of the next lower version
one, of the others none; of each version the newest; and what is not kept is removed. -/
theorem manageDBBackupFiles_keeps (files : List BackupFile) :
    ((manageDBBackupFiles files).excludedFiles ++
        (manageDBBackupFiles files).removedFiles).Perm files ∧
      (∀ version, IsLatest files version →
        (ofVersion (manageDBBackupFiles files).excludedFiles version).length =
          min 2 (ofVersion files version).length) ∧
      (∀ version, IsPrevious files version →
        (ofVersion (manageDBBackupFiles files).excludedFiles version).length = 1) ∧
      (∀ m ∈ (manageDBBackupFiles files).excludedFiles,
        IsLatest files m.version ∨ IsPrevious files m.version) ∧
      ∀ m ∈ (manageDBBackupFiles files).excludedFiles,
        ∀ m' ∈ (manageDBBackupFiles files).removedFiles,
          m'.version = m.version → m'.mts ≤ m.mts := by
  by_cases hfiles : files = []
  · subst hfiles
    have hnone : manageDBBackupFiles [] = ⟨[], []⟩ := rfl
    simp [hnone, IsLatest, IsPrevious]
  obtain ⟨first, more, second, others, previous, h⟩ := exists_parts hfiles
  have hfirst : ∀ m ∈ first :: more.take 1, m.version = first.version := by
    intro m hm
    apply h.latest_eq
    exact List.mem_of_mem_take (i := 2) hm
  have hsecond : ∀ m ∈ second.take 1, m.version = previous := fun m hm =>
    h.second_eq m (List.mem_of_mem_take hm)
  rw [h.managed]
  refine ⟨?_, ?_, ?_, ?_, ?_⟩
  · refine List.Perm.trans ?_ h.perm
    apply List.perm_iff_count.mpr
    intro m
    have hmore := congrArg (List.count m) (List.take_append_drop 1 more)
    have hrest := congrArg (List.count m) (List.take_append_drop 1 second)
    simp only [List.count_append, List.count_cons] at hmore hrest ⊢
    omega
  · intro version hversion
    obtain rfl := isLatest_unique h.isLatest hversion
    have hnone : ofVersion (second.take 1) first.version = [] := by
      apply ofVersion_eq_nil
      intro m hm
      exact (h.second_lt (List.mem_of_mem_take hm)).ne
    simp only
    rw [ofVersion_append, hnone, List.append_nil, ofVersion_eq_self hfirst,
      h.ofVersion_latest.length_eq, List.length_cons, List.length_cons, List.length_take]
    omega
  · intro version hversion
    obtain ⟨hne, rfl⟩ := h.isPrevious_iff.mp hversion
    have hnone : ofVersion (first :: more.take 1) version = [] := by
      apply ofVersion_eq_nil
      intro m hm
      rw [hfirst m hm]
      exact (h.previous_lt hne).ne'
    have hpos := List.length_pos_of_ne_nil hne
    simp only
    rw [ofVersion_append, hnone, List.nil_append, ofVersion_eq_self hsecond, List.length_take]
    omega
  · intro m hm
    rcases List.mem_append.mp hm with hm | hm
    · left
      rw [hfirst m hm]
      exact h.isLatest
    · right
      rw [hsecond m hm]
      exact h.isPrevious_iff.mpr ⟨List.ne_nil_of_mem (List.mem_of_mem_take hm), rfl⟩
  · intro m hm m' hm' hversion
    have hnewer : BackupFile.newerFirst m m' := by
      rcases List.mem_append.mp hm with hm | hm
      · rw [hfirst m hm] at hversion
        simp only [List.append_assoc, List.mem_append] at hm'
        rcases hm' with hm' | hm' | hm'
        · have hsorted := h.ordered.sublist (List.sublist_append_left (first :: more) _)
          exact rel_of_take_of_drop (n := 2) hsorted hm hm'
        · exact absurd hversion (h.second_lt (List.mem_of_mem_drop hm')).ne
        · exact absurd hversion (h.others_lt_latest hm').ne
      · rw [hsecond m hm] at hversion
        have hlt := h.previous_lt (List.ne_nil_of_mem (List.mem_of_mem_take hm))
        simp only [List.append_assoc, List.mem_append] at hm'
        rcases hm' with hm' | hm' | hm'
        · rw [h.more_eq m' (List.mem_of_mem_drop hm')] at hversion
          exact absurd hversion hlt.ne'
        · have hsorted : second.Pairwise BackupFile.newerFirst := h.ordered.sublist
            (((List.sublist_append_left second others).trans
              (List.sublist_append_right more _)).cons first)
          exact rel_of_take_of_drop hsorted hm hm'
        · exact absurd hversion (h.others_lt m' hm').ne
    unfold BackupFile.newerFirst at hnewer
    omega

end Sorted

end DBBackupManager

end ReportsFramework
