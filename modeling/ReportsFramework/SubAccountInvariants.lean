/-
What the tables of users and sub-accounts keep to: each sub-user is linked once, and the
sub-users of one master have different e-mails and different api keys.
-/
import ReportsFramework.SubAccounts

namespace ReportsFramework

namespace SubAccounts

/-- What tells a sub-user from another. -/
structure Owner where
  email : String
  username : String
  apiKey : Option String
  apiSecret : Option String
deriving DecidableEq

def ownerOf (user : User) : Owner := ⟨user.email, user.username, user.apiKey, user.apiSecret⟩

/-- The e-mail or the api keys are the same. -/
def Owner.Meets (o o' : Owner) : Prop :=
  o.email = o'.email ∨ o.apiKey = o'.apiKey ∧ o.apiSecret = o'.apiSecret

instance (o o' : Owner) : Decidable (o.Meets o') :=
  inferInstanceAs (Decidable (_ ∨ _))

/-- Who has the same e-mail or the same keys has the same e-mail and username. -/
def AccountsAgree (owners : List Owner) : Prop :=
  ∀ o ∈ owners, ∀ o' ∈ owners, o.Meets o' → o.email = o'.email ∧ o.username = o'.username

instance (owners : List Owner) : Decidable (AccountsAgree owners) :=
  inferInstanceAs (Decidable (∀ o ∈ owners, ∀ o' ∈ owners,
    o.Meets o' → o.email = o'.email ∧ o.username = o'.username))

namespace Db

/-- What holds of the tables whatever the calls do. -/
structure Stored (db : Db) : Prop where
  ids : db.users.Pairwise fun u u' => u._id ≠ u'._id
  bounded : ∀ u ∈ db.users, u._id < db.nextId
  names : db.users.Pairwise fun u u' => ¬ (u.email = u'.email ∧ u.username = u'.username)
  once : (db.subAccounts.map Prod.snd).Nodup
  masters : ∀ link ∈ db.subAccounts, ∃ u ∈ db.users, u._id = link.1 ∧ u.isSubUser = false
  subUsers : ∀ link ∈ db.subAccounts, ∃ u ∈ db.users, u._id = link.2 ∧ u.isSubUser = true
  apart : ∀ m, ∀ u ∈ db.subUsersOf m, ∀ u' ∈ db.subUsersOf m,
    (ownerOf u).Meets (ownerOf u') → u = u'

/-- The sub-user with the e-mail of the master is there. -/
def HasMaster (db : Db) (a : User) : Prop :=
  ∃ u ∈ db.subUsersOf a._id, u.email = a.email

/-- A list of sub-users, as it was taken from the rows of the master: rows that are
still there are the same sub-users, and are of no other master. -/
def SubUsersOk (db : Db) (masterUserId : ℕ) (subUsers : List User) : Prop :=
  ∀ v ∈ subUsers, v._id < db.nextId ∧ ∀ u ∈ db.users, u._id = v._id →
    u.isSubUser = true ∧ u.email = v.email ∧
      ∀ link ∈ db.subAccounts, link.2 = v._id → link.1 = masterUserId

/-- A session is of the row of its user, and one with the keys of a sub-account is of a
sub-account. -/
structure SessionOk (db : Db) (session : Session) : Prop where
  isSubAccount : session.user.isSubAccount = true ∨
    isSubAccountApiKeys session.user.apiKey session.user.apiSecret = false
  bounded : session.user._id < db.nextId
  row : ∀ u ∈ db.users, u._id = session.user._id → session.user.isSubAccount = true →
    u.isSubAccount = true ∧ u.isSubUser = false
  subUsers : db.SubUsersOk session.user._id session.subUsers

variable {db db' : Db} {u u' : User} {m : ℕ}

theorem mem_subUsersOf : u ∈ db.subUsersOf m ↔ u ∈ db.users ∧ (m, u._id) ∈ db.subAccounts := by
  simp only [subUsersOf, List.mem_flatMap, List.mem_replicate]
  constructor
  · rintro ⟨user, huser, hcount, rfl⟩
    exact ⟨huser, List.count_pos_iff.mp (Nat.pos_of_ne_zero hcount)⟩
  · rintro ⟨huser, hlink⟩
    exact ⟨u, huser, (List.count_pos_iff.mpr hlink).ne', rfl⟩

theorem Stored.eq_of_id (h : db.Stored) (hu : u ∈ db.users) (hu' : u' ∈ db.users)
    (hid : u._id = u'._id) : u = u' :=
  List.inj_on_of_nodup_map (List.pairwise_map.mpr h.ids) hu hu' hid

/-- The masters of two links of one sub-user are the same. -/
theorem Stored.master_eq (h : db.Stored) {link link' : ℕ × ℕ} (hlink : link ∈ db.subAccounts)
    (hlink' : link' ∈ db.subAccounts) (heq : link.2 = link'.2) : link.1 = link'.1 :=
  congrArg Prod.fst (List.inj_on_of_nodup_map h.once hlink hlink' heq)

theorem Stored.isSubUser_of_mem (h : db.Stored) (hu : u ∈ db.subUsersOf m) :
    u.isSubUser = true := by
  obtain ⟨hrow, hlink⟩ := mem_subUsersOf.mp hu
  obtain ⟨u', hu', hid, hsub⟩ := h.subUsers _ hlink
  rw [h.eq_of_id hrow hu' hid.symm]
  exact hsub

/-- The rows of a master's sub-users are in order as a list of sub-users. -/
theorem Stored.subUsersOk (h : db.Stored) (m : ℕ) : db.SubUsersOk m (db.subUsersOf m) := by
  intro v hv
  obtain ⟨hrow, hlink⟩ := mem_subUsersOf.mp hv
  refine ⟨h.bounded v hrow, ?_⟩
  intro u hu hid
  obtain rfl := h.eq_of_id hu hrow hid
  refine ⟨h.isSubUser_of_mem hv, rfl, ?_⟩
  intro link hmem hid
  exact h.master_eq hmem hlink hid

theorem SubUsersOk.append {subUsers subUsers' : List User} (h : db.SubUsersOk m subUsers)
    (h' : db.SubUsersOk m subUsers') : db.SubUsersOk m (subUsers ++ subUsers') := by
  intro v hv
  rcases List.mem_append.mp hv with hv | hv
  · exact h v hv
  · exact h' v hv

theorem SubUsersOk.subset {subUsers subUsers' : List User} (h : db.SubUsersOk m subUsers')
    (hsub : ∀ v ∈ subUsers, v ∈ subUsers') : db.SubUsersOk m subUsers :=
  fun v hv => h v (hsub v hv)

section Insert

/-- A user who is inserted, and linked if a master is given. -/
structure Inserted (db db' : Db) (user : User) (master : Option ℕ) : Prop where
  id : user._id = db.nextId
  users : db'.users = db.users ++ [user]
  nextId : db'.nextId = db.nextId + 1
  subAccounts : db'.subAccounts = db.subAccounts ++ (master.map fun m => (m, user._id)).toList
  names : ∀ u ∈ db.users, ¬ (u.email = user.email ∧ u.username = user.username)

variable {user : User} {master : Option ℕ}

theorem Stored.inserted_iff (h : db.Stored) (hins : Inserted db db' user master) :
    u ∈ db'.subUsersOf m ↔ u ∈ db.subUsersOf m ∨ u = user ∧ master = some m := by
  have hnew : ∀ m', (m', user._id) ∉ db.subAccounts := by
    intro m' hlink
    obtain ⟨u', hu', hid, _⟩ := h.subUsers _ hlink
    have := h.bounded u' hu'
    rw [hid, hins.id] at this
    exact lt_irrefl _ this
  rw [mem_subUsersOf, mem_subUsersOf, hins.users, hins.subAccounts, List.mem_append,
    List.mem_append, List.mem_singleton]
  have hold : u ∈ db.users → (m, u._id) ∉ (master.map fun m => (m, user._id)).toList := by
    intro hu hmem
    have := h.bounded u hu
    cases master with
    | none => simp at hmem
    | some m' =>
      simp only [Option.map_some, Option.toList_some, List.mem_singleton, Prod.mk.injEq] at hmem
      rw [hmem.2, hins.id] at this
      exact lt_irrefl _ this
  constructor
  · rintro ⟨hu | rfl, hlink | hlink⟩
    · exact .inl ⟨hu, hlink⟩
    · exact absurd hlink (hold hu)
    · exact absurd hlink (hnew m)
    · right
      cases master with
      | none => simp at hlink
      | some m' => simpa [eq_comm] using hlink
  · rintro (⟨hu, hlink⟩ | ⟨rfl, rfl⟩)
    · exact ⟨.inl hu, .inl hlink⟩
    · exact ⟨.inr rfl, .inr (by simp)⟩

/-- A new row keeps the tables in order if it is no sub-user, or a sub-user whose e-mail
and keys are new to the master. -/
theorem Stored.inserted (h : db.Stored) (hins : Inserted db db' user master)
    (hmaster : ∀ m, master = some m → user.isSubUser = true ∧
      (∃ u ∈ db.users, u._id = m ∧ u.isSubUser = false) ∧
      ∀ u ∈ db.subUsersOf m, ¬ (ownerOf u).Meets (ownerOf user)) : db'.Stored where
  ids := by
    rw [hins.users]
    apply List.pairwise_append.mpr
    refine ⟨h.ids, List.pairwise_singleton _ _, ?_⟩
    intro u hu u' hu'
    rw [List.mem_singleton.mp hu', hins.id]
    exact (h.bounded u hu).ne
  bounded := by
    intro u hu
    rw [hins.users, List.mem_append, List.mem_singleton] at hu
    rw [hins.nextId]
    rcases hu with hu | rfl
    · exact (h.bounded u hu).trans (Nat.lt_succ_self _)
    · rw [hins.id]
      exact Nat.lt_succ_self _
  names := by
    rw [hins.users]
    apply List.pairwise_append.mpr
    refine ⟨h.names, List.pairwise_singleton _ _, ?_⟩
    intro u hu u' hu'
    rw [List.mem_singleton.mp hu']
    exact hins.names u hu
  once := by
    rw [hins.subAccounts, List.map_append]
    cases master with
    | none => simpa using h.once
    | some m =>
      apply List.nodup_append.mpr
      refine ⟨h.once, List.nodup_singleton _, ?_⟩
      intro id hid id' hid'
      obtain ⟨link, hlink, rfl⟩ := List.mem_map.mp hid
      obtain ⟨u, hu, heq, _⟩ := h.subUsers link hlink
      rw [List.mem_singleton.mp hid', ← heq, hins.id]
      exact (h.bounded u hu).ne
  masters := by
    intro link hlink
    rw [hins.subAccounts, List.mem_append] at hlink
    rw [hins.users]
    have hrow : ∃ u ∈ db.users, u._id = link.1 ∧ u.isSubUser = false := by
      rcases hlink with hlink | hlink
      · exact h.masters link hlink
      · cases master with
        | none => simp at hlink
        | some m =>
          rw [List.mem_singleton.mp hlink]
          exact (hmaster m rfl).2.1
    obtain ⟨u, hu, hid⟩ := hrow
    exact ⟨u, List.mem_append_left _ hu, hid⟩
  subUsers := by
    intro link hlink
    rw [hins.subAccounts, List.mem_append] at hlink
    rw [hins.users]
    rcases hlink with hlink | hlink
    · obtain ⟨u, hu, hid⟩ := h.subUsers link hlink
      exact ⟨u, List.mem_append_left _ hu, hid⟩
    · cases master with
      | none => simp at hlink
      | some m =>
        rw [List.mem_singleton.mp hlink]
        exact ⟨user, by simp, rfl, (hmaster m rfl).1⟩
  apart := by
    intro m u hu u' hu' hmeets
    rw [h.inserted_iff hins] at hu hu'
    rcases hu with hu | ⟨rfl, rfl⟩
    · rcases hu' with hu' | ⟨rfl, rfl⟩
      · exact h.apart m u hu u' hu' hmeets
      · exact absurd hmeets ((hmaster m rfl).2.2 u hu)
    · rcases hu' with hu' | ⟨rfl, _⟩
      · exact absurd (hmeets.imp Eq.symm fun hkeys => ⟨hkeys.1.symm, hkeys.2.symm⟩)
          ((hmaster m rfl).2.2 u' hu')
      · rfl

theorem HasMaster.inserted (h : db.Stored) (hins : Inserted db db' user master)
    (hm : db.HasMaster u) : db'.HasMaster u := by
  obtain ⟨v, hv, hemail⟩ := hm
  exact ⟨v, (h.inserted_iff hins).mpr (.inl hv), hemail⟩

theorem SubUsersOk.inserted (hins : Inserted db db' user master) {subUsers : List User}
    (hok : db.SubUsersOk m subUsers) : db'.SubUsersOk m subUsers := by
  intro v hv
  obtain ⟨hlt, hrows⟩ := hok v hv
  rw [hins.nextId, hins.users, hins.subAccounts]
  refine ⟨hlt.trans (Nat.lt_succ_self _), ?_⟩
  have hne : user._id ≠ v._id := by
    rw [hins.id]
    exact hlt.ne'
  intro u hu hid
  rcases List.mem_append.mp hu with hu | hu
  · obtain ⟨hsub, hemail, hlinks⟩ := hrows u hu hid
    refine ⟨hsub, hemail, ?_⟩
    intro link hlink heq
    rcases List.mem_append.mp hlink with hlink | hlink
    · exact hlinks link hlink heq
    · cases master with
      | none => simp at hlink
      | some m' =>
        rw [List.mem_singleton.mp hlink] at heq
        exact absurd heq hne
  · rw [List.mem_singleton.mp hu] at hid
    exact absurd hid hne

/-- The new sub-user is in order as one of its master's. -/
theorem Stored.subUsersOk_inserted (h : db.Stored) (hins : Inserted db db' user (some m))
    (hsub : user.isSubUser = true) : db'.SubUsersOk m [user] := by
  intro v hv
  rw [List.mem_singleton.mp hv, hins.nextId, hins.users, hins.subAccounts, hins.id]
  refine ⟨Nat.lt_succ_self _, ?_⟩
  intro u hu hid
  rcases List.mem_append.mp hu with hu | hu
  · exact absurd hid (h.bounded u hu).ne
  · rw [List.mem_singleton.mp hu]
    refine ⟨hsub, rfl, ?_⟩
    intro link hlink heq
    rcases List.mem_append.mp hlink with hlink | hlink
    · obtain ⟨u', hu', hid', _⟩ := h.subUsers link hlink
      rw [heq] at hid'
      exact absurd hid' (h.bounded u' hu').ne
    · rw [List.mem_singleton.mp hlink]

theorem SessionOk.inserted (hins : Inserted db db' user master) {session : Session}
    (hok : db.SessionOk session) : db'.SessionOk session where
  isSubAccount := hok.isSubAccount
  bounded := by
    rw [hins.nextId]
    exact hok.bounded.trans (Nat.lt_succ_self _)
  row := by
    intro u hu hid
    rw [hins.users, List.mem_append, List.mem_singleton] at hu
    rcases hu with hu | rfl
    · exact hok.row u hu hid
    · rw [hins.id] at hid
      exact absurd hid hok.bounded.ne'
  subUsers := hok.subUsers.inserted hins

end Insert

section Remove

/-- Nobody else is deleted with sub-users. -/
theorem Stored.deletedWith_eq (h : db.Stored) {ids : List ℕ}
    (hids : ∀ u ∈ db.users, u._id ∈ ids → u.isSubUser = true) : db.deletedWith ids = ids := by
  have hnone : db.subAccounts.filter (·.1 ∈ ids) = [] := by
    apply List.filter_eq_nil_iff.mpr
    intro link hlink hmem
    obtain ⟨u, hu, hid, hsub⟩ := h.masters link hlink
    rw [hids u hu (by simpa [hid] using hmem)] at hsub
    cases hsub
  rw [deletedWith]
  generalize List.range db.subAccounts.length = steps
  induction steps with
  | nil => rfl
  | cons _ rest ih =>
    rw [List.foldl_cons, hnone, List.map_nil, List.append_nil]
    exact ih

/-- What is left of the tables without the sub-users of some ids. -/
structure Without (db db' : Db) (ids : List ℕ) : Prop where
  users : db'.users = db.users.filter (·._id ∉ ids)
  nextId : db'.nextId = db.nextId
  subAccounts : db'.subAccounts = db.subAccounts.filter fun link => link.1 ∉ ids ∧ link.2 ∉ ids

theorem Stored.without_removeUsers (h : db.Stored) {ids : List ℕ}
    (hids : ∀ u ∈ db.users, u._id ∈ ids → u.isSubUser = true) :
    Without db (db.removeUsers ids) ids := by
  have heq := h.deletedWith_eq hids
  constructor
  · simp [removeUsers, heq]
  · rfl
  · simp [removeUsers, heq]

variable {ids : List ℕ}

theorem Without.mem_users (hw : Without db db' ids) :
    u ∈ db'.users ↔ u ∈ db.users ∧ u._id ∉ ids := by
  simp [hw.users]

theorem Without.mem_subUsersOf (h : db.Stored) (hw : Without db db' ids)
    (hids : ∀ u ∈ db.users, u._id ∈ ids → u.isSubUser = true) :
    u ∈ db'.subUsersOf m ↔ u ∈ db.subUsersOf m ∧ u._id ∉ ids := by
  rw [Db.mem_subUsersOf, Db.mem_subUsersOf, hw.mem_users, hw.subAccounts, List.mem_filter]
  constructor
  · rintro ⟨⟨hu, hid⟩, hlink, _⟩
    exact ⟨⟨hu, hlink⟩, hid⟩
  · rintro ⟨⟨hu, hlink⟩, hid⟩
    refine ⟨⟨hu, hid⟩, hlink, ?_⟩
    rw [decide_eq_true_eq]
    refine ⟨?_, hid⟩
    intro hmem
    obtain ⟨u', hu', heq, hsub⟩ := h.masters _ hlink
    dsimp only at heq
    rw [← heq] at hmem
    rw [hids u' hu' hmem] at hsub
    cases hsub

theorem Stored.without (h : db.Stored) (hw : Without db db' ids)
    (hids : ∀ u ∈ db.users, u._id ∈ ids → u.isSubUser = true) : db'.Stored where
  ids := by
    rw [hw.users]
    exact h.ids.filter _
  bounded := by
    intro u hu
    rw [hw.nextId]
    exact h.bounded u (hw.mem_users.mp hu).1
  names := by
    rw [hw.users]
    exact h.names.filter _
  once := by
    rw [hw.subAccounts]
    exact h.once.sublist (List.filter_sublist.map _)
  masters := by
    intro link hlink
    rw [hw.subAccounts, List.mem_filter, decide_eq_true_eq] at hlink
    obtain ⟨u, hu, hid, hsub⟩ := h.masters link hlink.1
    exact ⟨u, hw.mem_users.mpr ⟨hu, hid ▸ hlink.2.1⟩, hid, hsub⟩
  subUsers := by
    intro link hlink
    rw [hw.subAccounts, List.mem_filter, decide_eq_true_eq] at hlink
    obtain ⟨u, hu, hid, hsub⟩ := h.subUsers link hlink.1
    exact ⟨u, hw.mem_users.mpr ⟨hu, hid ▸ hlink.2.2⟩, hid, hsub⟩
  apart := by
    intro m u hu u' hu' hmeets
    rw [hw.mem_subUsersOf h hids] at hu hu'
    exact h.apart m u hu.1 u' hu'.1 hmeets

theorem SubUsersOk.without (hw : Without db db' ids) {subUsers : List User}
    (hok : db.SubUsersOk m subUsers) : db'.SubUsersOk m subUsers := by
  intro v hv
  obtain ⟨hlt, hrows⟩ := hok v hv
  rw [hw.nextId]
  refine ⟨hlt, ?_⟩
  intro u hu hid
  obtain ⟨hsub, hemail, hlinks⟩ := hrows u (hw.mem_users.mp hu).1 hid
  refine ⟨hsub, hemail, ?_⟩
  intro link hlink
  rw [hw.subAccounts, List.mem_filter] at hlink
  exact hlinks link hlink.1

theorem SessionOk.without (hw : Without db db' ids) {session : Session}
    (hok : db.SessionOk session) : db'.SessionOk session where
  isSubAccount := hok.isSubAccount
  bounded := by
    rw [hw.nextId]
    exact hok.bounded
  row := fun u hu => hok.row u (hw.mem_users.mp hu).1
  subUsers := hok.subUsers.without hw

end Remove

section Refresh

/-- The rows with other data of the API: only the sub-account's own row may get another
username, and rows of neither a sub-account nor a sub-user are as they were. -/
structure Refreshed (db db' : Db) (f : User → User) : Prop where
  users : db'.users = db.users.map f
  nextId : db'.nextId = db.nextId
  subAccounts : db'.subAccounts = db.subAccounts
  same : ∀ u ∈ db.users, (f u)._id = u._id ∧ (f u).email = u.email ∧
    (f u).isSubAccount = u.isSubAccount ∧ (f u).isSubUser = u.isSubUser
  subUser : ∀ u ∈ db.users, u.isSubUser = true → ownerOf (f u) = ownerOf u
  names : (db.users.map f).Pairwise fun u u' => ¬ (u.email = u'.email ∧ u.username = u'.username)

variable {f : User → User}

theorem Refreshed.mem_users (hf : Refreshed db db' f) :
    u ∈ db'.users ↔ ∃ v ∈ db.users, f v = u := by
  rw [hf.users, List.mem_map]

theorem Refreshed.mem_subUsersOf (hf : Refreshed db db' f) :
    u ∈ db'.subUsersOf m ↔ ∃ v ∈ db.subUsersOf m, f v = u := by
  simp only [Db.mem_subUsersOf, hf.mem_users, hf.subAccounts]
  constructor
  · rintro ⟨⟨v, hv, rfl⟩, hlink⟩
    rw [(hf.same v hv).1] at hlink
    exact ⟨v, ⟨hv, hlink⟩, rfl⟩
  · rintro ⟨v, ⟨hv, hlink⟩, rfl⟩
    refine ⟨⟨v, hv, rfl⟩, ?_⟩
    rwa [(hf.same v hv).1]

theorem Stored.refreshed (h : db.Stored) (hf : Refreshed db db' f) : db'.Stored where
  ids := by
    rw [hf.users, List.pairwise_map]
    refine h.ids.imp_of_mem ?_
    intro u u' hu hu' hne
    rw [(hf.same u hu).1, (hf.same u' hu').1]
    exact hne
  bounded := by
    intro u hu
    obtain ⟨v, hv, rfl⟩ := hf.mem_users.mp hu
    rw [hf.nextId, (hf.same v hv).1]
    exact h.bounded v hv
  names := by
    rw [hf.users]
    exact hf.names
  once := by
    rw [hf.subAccounts]
    exact h.once
  masters := by
    intro link hlink
    rw [hf.subAccounts] at hlink
    obtain ⟨u, hu, hid, hsub⟩ := h.masters link hlink
    obtain ⟨hid', _, _, hsub'⟩ := hf.same u hu
    exact ⟨f u, hf.mem_users.mpr ⟨u, hu, rfl⟩, hid'.trans hid, hsub'.trans hsub⟩
  subUsers := by
    intro link hlink
    rw [hf.subAccounts] at hlink
    obtain ⟨u, hu, hid, hsub⟩ := h.subUsers link hlink
    obtain ⟨hid', _, _, hsub'⟩ := hf.same u hu
    exact ⟨f u, hf.mem_users.mpr ⟨u, hu, rfl⟩, hid'.trans hid, hsub'.trans hsub⟩
  apart := by
    intro m u hu u' hu' hmeets
    obtain ⟨v, hv, rfl⟩ := hf.mem_subUsersOf.mp hu
    obtain ⟨v', hv', rfl⟩ := hf.mem_subUsersOf.mp hu'
    rw [hf.subUser v (Db.mem_subUsersOf.mp hv).1 (h.isSubUser_of_mem hv),
      hf.subUser v' (Db.mem_subUsersOf.mp hv').1 (h.isSubUser_of_mem hv')] at hmeets
    rw [h.apart m v hv v' hv' hmeets]

theorem HasMaster.refreshed (hf : Refreshed db db' f) (hu : u ∈ db.users) (hm : db.HasMaster u) :
    db'.HasMaster (f u) := by
  obtain ⟨v, hv, hemail⟩ := hm
  refine ⟨f v, ?_, ?_⟩
  · rw [(hf.same u hu).1]
    exact hf.mem_subUsersOf.mpr ⟨v, hv, rfl⟩
  · rw [(hf.same u hu).2.1, (hf.same v (Db.mem_subUsersOf.mp hv).1).2.1]
    exact hemail

theorem SubUsersOk.refreshed (hf : Refreshed db db' f) {subUsers : List User}
    (hok : db.SubUsersOk m subUsers) : db'.SubUsersOk m subUsers := by
  intro v hv
  obtain ⟨hlt, hrows⟩ := hok v hv
  rw [hf.nextId, hf.subAccounts]
  refine ⟨hlt, ?_⟩
  intro u hu hid
  obtain ⟨w, hw, rfl⟩ := hf.mem_users.mp hu
  obtain ⟨hid', hemail', _, hsub'⟩ := hf.same w hw
  obtain ⟨hsub, hemail, hlinks⟩ := hrows w hw (hid'.symm.trans hid)
  exact ⟨hsub'.trans hsub, hemail'.trans hemail, hlinks⟩

theorem SessionOk.refreshed (hf : Refreshed db db' f) {session : Session}
    (hok : db.SessionOk session) : db'.SessionOk session where
  isSubAccount := hok.isSubAccount
  bounded := by
    rw [hf.nextId]
    exact hok.bounded
  row := by
    intro u hu hid hsub
    obtain ⟨w, hw, rfl⟩ := hf.mem_users.mp hu
    obtain ⟨hid', _, hacc', hsub'⟩ := hf.same w hw
    rw [hacc', hsub']
    exact hok.row w hw (hid'.symm.trans hid) hsub
  subUsers := hok.subUsers.refreshed hf

end Refresh

end Db

end SubAccounts

end ReportsFramework
