/-
A sub-account has its master sub-user and no Bitfinex user twice, as long as the accounts
of a call agree with each other and the master is not removed.
-/
import ReportsFramework.SubAccountAtomicity
import ReportsFramework.SubAccountInvariants

namespace ReportsFramework

namespace SubAccounts

open Attempt

variable {env : Env} {attempt : ℕ} {s : World}

section Ordinary

/-- The users who are neither sub-accounts nor sub-users. -/
def Db.ordinaryUsers (db : Db) : List User :=
  db.users.filter fun user => user.isSubAccount = false && user.isSubUser = false

theorem getUser_ordinary (db : Db) (email : String) :
    db.getUser email none false false = db.ordinaryUsers.find? fun user => user.email = email := by
  rw [Db.getUser, Db.ordinaryUsers, List.find?_filter]
  congr 1
  funext user
  simp only [Option.all_none, Bool.and_true]
  cases user.isSubAccount <;> cases user.isSubUser <;> simp

theorem checkAuth_congr {s' : World} (hdb : s'.db.ordinaryUsers = s.db.ordinaryUsers)
    (hsessions : s'.sessions = s.sessions) (secretKey : String) (auth : SubUserAuth) :
    checkAuth secretKey s' auth = checkAuth secretKey s auth := by
  unfold checkAuth verifyUser
  simp only [getUser_ordinary, hdb, hsessions]
  rfl

/-- The sub-user that an entry of a list may be stored as. -/
def wouldBe (env : Env) (s : World) (masterUserId : Option ℕ) (auth : SubUserAuth) :
    Option Owner :=
  (checkAuth env.secretKey s auth).bind fun checked =>
    (env.accountOf checked).map fun account =>
      ⟨account.email, generateSubUserName masterUserId account.username false true,
        checked.apiKey, checked.apiSecret⟩

end Ordinary

section Adding

/-- What holds while sub-users are added to the master `m`, all of them of one list of
owners. -/
structure Adding (base : Db) (m : ℕ) (owners : List Owner) (added : List User) (db : Db) :
    Prop where
  stored : db.Stored
  master : ∃ u ∈ db.users, u._id = m ∧ u.isSubAccount = true ∧ u.isSubUser = false
  accounts : ∀ a ∈ db.users, a.isSubAccount = true → a ∈ base.users
  kept : ∀ a, base.HasMaster a → db.HasMaster a
  ordinary : db.ordinaryUsers = base.ordinaryUsers
  subUsersOk : ∀ m' subUsers, base.SubUsersOk m' subUsers → db.SubUsersOk m' subUsers
  sessionOk : ∀ session, base.SessionOk session → db.SessionOk session
  owners : ∀ u ∈ db.subUsersOf m, ownerOf u ∈ owners
  addedOk : db.SubUsersOk m added
  added : ∀ v ∈ added, v ∈ db.subUsersOf m

variable {base : Db} {m : ℕ} {owners : List Owner} {added : List User}

theorem wp_signUp {auth : CheckedAuth} {userPwd : String}
    {isNotProtected isSubAccount isSubUser : Bool} {masterUserId : Option ℕ}
    {localUsername : Option String} {Q : User → World → Prop} {E : World → Prop} (hE : E s)
    (hQ : ∀ account user db, env.accountOf auth = some account →
      ownerOf user = ⟨account.email,
        generateSubUserName masterUserId account.username isSubAccount isSubUser,
        auth.apiKey, auth.apiSecret⟩ →
      user._id = s.db.nextId → user.isSubAccount = isSubAccount → user.isSubUser = isSubUser →
      s.db.insertUser user = some db → Q user { s with db := db }) :
    wp (signUp env auth userPwd isNotProtected isSubAccount isSubUser masterUserId localUsername)
      Q E s := by
  unfold signUp
  simp only [wp_bind, wp_failIf, wp_orFail, wp_read, wp_pure]
  refine ⟨fun _ => hE, fun _ => ⟨fun _ => hE, fun _ => ⟨fun _ => hE, fun _ => ⟨?_, fun _ => hE⟩⟩⟩⟩
  intro account haccount
  refine ⟨fun _ => hE, fun _ => ⟨fun _ => hE, fun _ => ⟨?_, fun _ => hE⟩⟩⟩
  intro db hdb
  exact hQ account _ db haccount rfl rfl rfl rfl hdb

theorem insertUser_spec {db db' : Db} {user : User} (h : db.insertUser user = some db') :
    (∀ u ∈ db.users, ¬ (u.email = user.email ∧ u.username = user.username)) ∧
      db' = { db with users := db.users ++ [user], nextId := db.nextId + 1 } := by
  unfold Db.insertUser at h
  split_ifs at h with hex
  refine ⟨fun u hu heq => hex ⟨u, hu, heq⟩, ?_⟩
  exact (Option.some.inj h).symm

/-- An owner who meets a sub-user would have the e-mail and the username of its row. -/
theorem Adding.not_meets {db : Db} (h : Adding base m owners added db)
    (hagree : AccountsAgree owners) {user : User} (howner : ownerOf user ∈ owners)
    (hnames : ∀ u ∈ db.users, ¬ (u.email = user.email ∧ u.username = user.username))
    {u : User} (hu : u ∈ db.subUsersOf m) : ¬ (ownerOf u).Meets (ownerOf user) := by
  intro hmeets
  have hsame := hagree _ (h.owners u hu) _ howner hmeets
  exact hnames u (Db.mem_subUsersOf.mp hu).1 hsame

theorem Adding.insert {db db' : Db} (h : Adding base m owners added db)
    (hagree : AccountsAgree owners) {user : User} (howner : ownerOf user ∈ owners)
    (hsub : user.isSubUser = true) (hacc : user.isSubAccount = false)
    (hins : Db.Inserted db db' user (some m)) :
    Adding base m owners (added ++ [user]) db' ∧ user ∈ db'.subUsersOf m := by
  have hnew : user ∈ db'.subUsersOf m := (h.stored.inserted_iff hins).mpr (.inr ⟨rfl, rfl⟩)
  refine ⟨⟨?_, ?_, ?_, ?_, ?_, ?_, ?_, ?_, ?_, ?_⟩, hnew⟩
  · apply h.stored.inserted hins
    intro m' hm'
    obtain rfl := Option.some.inj hm'
    obtain ⟨u, hu, hid, _, hnotSub⟩ := h.master
    exact ⟨hsub, ⟨u, hu, hid, hnotSub⟩, fun u hu => h.not_meets hagree howner hins.names hu⟩
  · obtain ⟨u, hu, hid⟩ := h.master
    exact ⟨u, hins.users ▸ List.mem_append_left _ hu, hid⟩
  · intro a ha hisSub
    rw [hins.users, List.mem_append, List.mem_singleton] at ha
    rcases ha with ha | rfl
    · exact h.accounts a ha hisSub
    · rw [hacc] at hisSub
      cases hisSub
  · intro a ha
    exact (h.kept a ha).inserted h.stored hins
  · rw [← h.ordinary, Db.ordinaryUsers, hins.users, List.filter_append]
    simp [hsub, Db.ordinaryUsers]
  · intro m' subUsers hok
    exact (h.subUsersOk m' subUsers hok).inserted hins
  · intro session hok
    exact (h.sessionOk session hok).inserted hins
  · intro u hu
    rcases (h.stored.inserted_iff hins).mp hu with hu | ⟨rfl, _⟩
    · exact h.owners u hu
    · exact howner
  · exact (h.addedOk.inserted hins).append (h.stored.subUsersOk_inserted hins hsub)
  · intro v hv
    rcases List.mem_append.mp hv with hv | hv
    · exact (h.stored.inserted_iff hins).mpr (.inl (h.added v hv))
    · rw [List.mem_singleton.mp hv]
      exact hnew

/-- A sub-user that is added is the one the entry would be. -/
theorem wp_addSubUser (attempt : ℕ) (h : Adding base m owners added s.db)
    (hagree : AccountsAgree owners) (auth : CheckedAuth) (masterUserId : Option ℕ)
    (howner : ∀ account, env.accountOf auth = some account →
      ⟨account.email, generateSubUserName masterUserId account.username false true,
        auth.apiKey, auth.apiSecret⟩ ∈ owners) (i : ℕ) (password : String)
    (isNotProtected : Bool) :
    wp (addSubUser env attempt i auth password isNotProtected masterUserId m)
      (fun user s' => s'.sessions = s.sessions ∧ Adding base m owners (added ++ [user]) s'.db ∧
        ∃ account, env.accountOf auth = some account ∧ user.email = account.email)
      (fun s' => s'.sessions = s.sessions) s := by
  rw [addSubUser, wp_bind]
  apply wp_pass
  · rw [wp_bind]
    refine wp_signUp (s := s) rfl ?_
    intro account user db haccount hofUser hid hacc hsub hdb
    obtain ⟨hnames, hdb⟩ := insertUser_spec hdb
    rw [wp_bind]
    apply wp_pass
    · have hins : Db.Inserted s.db (db.insertSubAccount m user._id) user (some m) := by
        rw [hdb]
        exact ⟨hid, rfl, rfl, rfl, hnames⟩
      refine ⟨rfl, (h.insert hagree ?_ hsub hacc hins).1, account, haccount, ?_⟩
      · rw [hofUser]
        exact howner account haccount
      · exact congrArg Owner.email hofUser
    · rfl
  · rfl

/-- The owner an entry would be, in a state with the same ordinary users and sessions. -/
theorem wouldBe_eq {s s' : World} (hdb : s'.db.ordinaryUsers = s.db.ordinaryUsers)
    (hsessions : s'.sessions = s.sessions) {auth : SubUserAuth} {checked : CheckedAuth}
    (hchecked : checkAuth env.secretKey s' auth = some checked) {account : Account}
    (haccount : env.accountOf checked = some account) (masterUserId : Option ℕ) :
    wouldBe env s masterUserId auth =
      some ⟨account.email, generateSubUserName masterUserId account.username false true,
        checked.apiKey, checked.apiSecret⟩ := by
  rw [checkAuth_congr hdb hsessions] at hchecked
  simp [wouldBe, hchecked, haccount]

/-- Every entry of the list is one of the sub-users in the end. -/
theorem wp_createSubUsers (hagree : AccountsAgree owners) {s₀ : World} {masterUser : User}
    (hordinary : base.ordinaryUsers = s₀.db.ordinaryUsers) (password : String)
    (isNotProtected isSubUserFromMasterCreated : Bool) {auths : List SubUserAuth}
    (howners : ∀ auth ∈ auths, ∀ o, wouldBe env s₀ masterUser.id auth = some o → o ∈ owners)
    {s : World} (h : Adding base m owners added s.db) (hs : s.sessions = s₀.sessions) :
    wp (createSubUsers env attempt masterUser password isNotProtected m added
        isSubUserFromMasterCreated auths)
      (fun subUsers s' => s'.sessions = s₀.sessions ∧ Adding base m owners subUsers s'.db ∧
        (∀ v ∈ added, v ∈ subUsers) ∧
        ∀ auth ∈ auths, (checkAuth env.secretKey s₀ auth).isSome = true ∧
          ∀ o, wouldBe env s₀ masterUser.id auth = some o → ∃ v ∈ subUsers, v.email = o.email)
      (fun s' => s'.sessions = s₀.sessions) s := by
  induction auths generalizing added isSubUserFromMasterCreated s with
  | nil =>
    rw [createSubUsers, wp_pure]
    exact ⟨hs, h, fun _ hv => hv, by simp⟩
  | cons subUserAuth rest ih =>
    have hrest : ∀ auth ∈ rest, ∀ o, wouldBe env s₀ masterUser.id auth = some o → o ∈ owners :=
      fun auth hauth => howners auth (List.mem_cons_of_mem _ hauth)
    have hwould : ∀ checked, checkAuth env.secretKey s subUserAuth = some checked →
        ∀ account, env.accountOf checked = some account →
          wouldBe env s₀ masterUser.id subUserAuth = some ⟨account.email,
            generateSubUserName masterUser.id account.username false true,
            checked.apiKey, checked.apiSecret⟩ := by
      intro checked hchecked account haccount
      exact wouldBe_eq (h.ordinary.trans hordinary) hs hchecked haccount _
    rw [createSubUsers, wp_bind]
    apply wp_pass
    · rw [wp_bind, wp_read, wp_bind, wp_orFail]
      refine ⟨?_, fun _ => hs⟩
      intro checked hchecked
      have hchecked₀ : checkAuth env.secretKey s₀ subUserAuth = some checked := by
        rw [← checkAuth_congr (h.ordinary.trans hordinary) hs]
        exact hchecked
      rw [wp_bind, wp_failIf]
      refine ⟨fun _ => hs, fun _ => ?_⟩
      rw [wp_ite]
      constructor
      · intro hskip
        obtain ⟨v, hv, hkeys⟩ := List.any_eq_true.mp hskip
        simp only [hasKeysOf, Bool.and_eq_true, decide_eq_true_eq] at hkeys
        apply wp_mono (ih isSubUserFromMasterCreated hrest h hs)
        · rintro subUsers s' ⟨hs', hadding, hkept, hall⟩
          refine ⟨hs', hadding, hkept, ?_⟩
          intro auth hauth
          rcases List.mem_cons.mp hauth with rfl | hauth
          · refine ⟨by rw [hchecked₀]; rfl, ?_⟩
            intro o ho
            refine ⟨v, hkept v hv, ?_⟩
            have hmem := howners _ List.mem_cons_self o ho
            have hkeysOf : o.apiKey = checked.apiKey ∧ o.apiSecret = checked.apiSecret := by
              simp only [wouldBe, hchecked₀, Option.bind_some, Option.map_eq_some_iff] at ho
              obtain ⟨account, _, rfl⟩ := ho
              exact ⟨rfl, rfl⟩
            refine (hagree _ (h.owners v (h.added v hv)) o hmem (.inr ?_)).1
            exact ⟨(hkeysOf.1.trans hkeys.1).symm, (hkeysOf.2.trans hkeys.2).symm⟩
          · exact hall auth hauth
        · exact fun _ hs' => hs'
      · intro _
        have hadd := wp_addSubUser attempt h hagree checked masterUser.id (fun account haccount =>
            howners _ List.mem_cons_self _ (hwould checked hchecked account haccount))
          rest.length password isNotProtected
        rw [wp_bind]
        apply wp_mono hadd
        · rintro subUser s' ⟨hs', hadding, account, haccount, hemail⟩
          apply wp_mono (ih (isSubUserFromMasterCreated || hasKeysOf checked masterUser) hrest
            hadding (hs'.trans hs))
          · rintro subUsers s'' ⟨hs'', hadding', hkept, hall⟩
            refine ⟨hs'', hadding', fun v hv => hkept v (List.mem_append_left _ hv), ?_⟩
            intro auth hauth
            rcases List.mem_cons.mp hauth with rfl | hauth
            · refine ⟨by rw [hchecked₀]; rfl, ?_⟩
              intro o ho
              refine ⟨subUser, hkept subUser (by simp), ?_⟩
              rw [hwould checked hchecked account haccount] at ho
              rw [hemail, ← Option.some.inj ho]
            · exact hall auth hauth
          · exact fun _ hs'' => hs''
        · exact fun _ hs' => hs'.trans hs
    · exact hs

theorem wp_addSubUsers (hagree : AccountsAgree owners) {s₀ : World} {session : Session}
    {masterUser : User} (hordinary : base.ordinaryUsers = s₀.db.ordinaryUsers)
    (hid : session.user._id = m) {auths : List SubUserAuth}
    (howners : ∀ auth ∈ auths, ∀ o, wouldBe env s₀ masterUser.id auth = some o → o ∈ owners)
    (processedSubUsers : List User) {s : World} (h : Adding base m owners added s.db)
    (hs : s.sessions = s₀.sessions) :
    wp (addSubUsers env attempt session masterUser processedSubUsers added auths)
      (fun addedSubUsers s' => s'.sessions = s₀.sessions ∧
        Adding base m owners addedSubUsers s'.db)
      (fun s' => s'.sessions = s₀.sessions) s := by
  induction auths generalizing added processedSubUsers s with
  | nil =>
    rw [addSubUsers, wp_pure]
    exact ⟨hs, h⟩
  | cons subUserAuth rest ih =>
    have hrest : ∀ auth ∈ rest, ∀ o, wouldBe env s₀ masterUser.id auth = some o → o ∈ owners :=
      fun auth hauth => howners auth (List.mem_cons_of_mem _ hauth)
    rw [addSubUsers, wp_bind]
    apply wp_pass
    · rw [wp_bind, wp_read, wp_bind, wp_orFail]
      refine ⟨?_, fun _ => hs⟩
      intro checked hchecked
      split
      · exact ih hrest _ h hs
      · rw [wp_ite]
        refine ⟨fun _ => ih hrest _ h hs, fun _ => ?_⟩
        rw [wp_bind, hid]
        have hadd := wp_addSubUser attempt h hagree checked masterUser.id (fun account haccount =>
            howners _ List.mem_cons_self _ (wouldBe_eq (h.ordinary.trans hordinary) hs hchecked
              haccount masterUser.id))
          rest.length session.user.password session.user.isNotProtected
        apply wp_mono hadd
        · rintro subUser s' ⟨hs', hadding, _⟩
          exact ih hrest _ hadding (hs'.trans hs)
        · exact fun _ hs' => hs'.trans hs
    · exact hs

end Adding

section Invariant

/-- The tables are in order, every sub-account has its master, and so has every session. -/
structure Inv (s : World) : Prop where
  stored : s.db.Stored
  master : ∀ a ∈ s.db.users, a.isSubAccount = true → s.db.HasMaster a
  sessions : ∀ token session, s.sessions.val token = some session → s.db.SessionOk session

theorem inv_congr {s s' : World} (hdb : s'.db = s.db) (hsessions : s'.sessions = s.sessions)
    (h : Inv s) : Inv s' where
  stored := hdb ▸ h.stored
  master := by
    rw [hdb]
    exact h.master
  sessions := by
    rw [hdb, hsessions]
    exact h.sessions

/-- A session is set that is in order. -/
theorem inv_setUserSession {s : World} (hstored : s.db.Stored)
    (hmaster : ∀ a ∈ s.db.users, a.isSubAccount = true → s.db.HasMaster a)
    (hsessions : ∀ token session, s.sessions.val token = some session → s.db.SessionOk session)
    {session : Session} (hok : s.db.SessionOk session) :
    Inv { s with sessions := s.sessions.set session.token session } where
  stored := hstored
  master := hmaster
  sessions := by
    intro token session' hval
    rw [IndexedMap.val_set] at hval
    split_ifs at hval with htoken
    · rw [← Option.some.inj hval]
      exact hok
    · exact hsessions token session' hval

end Invariant

section Create

theorem getUser_spec {db : Db} {email : String} {isSubAccount isSubUser : Bool} {user : User}
    (h : db.getUser email none isSubAccount isSubUser = some user) :
    user ∈ db.users ∧ user.email = email ∧ user.isSubAccount = isSubAccount ∧
      user.isSubUser = isSubUser := by
  have hp := List.find?_some h
  simp only [Option.all_none, Bool.and_true, Bool.and_eq_true, decide_eq_true_eq] at hp
  exact ⟨List.mem_of_find?_eq_some h, hp.1.1, hp.1.2, hp.2⟩

theorem verifyUser_email {secretKey email : String} {password token : Option String}
    {isSubAccount isFilledSubUsers : Bool} {user : User} {subUsers : List User}
    (h : verifyUser secretKey s (some email) password isSubAccount token isFilledSubUsers =
      some (user, subUsers)) :
    s.db.getUser email none isSubAccount false = some user ∧
      subUsers = if isFilledSubUsers then s.db.subUsersOf user._id else [] := by
  obtain ⟨row, hrow, hif⟩ := Option.bind_eq_some_iff.mp h
  obtain ⟨_, heq⟩ := Option.ite_none_right_eq_some.mp hif
  cases heq
  exact ⟨hrow, rfl⟩

/-- The last entry of the list is of the master's e-mail. -/
theorem wouldBe_masterAuth {masterUser : User} {password : String} (masterUserId : Option ℕ)
    (h : (checkAuth env.secretKey s (masterAuth masterUser password)).isSome = true) :
    ∃ o, wouldBe env s masterUserId (masterAuth masterUser password) = some o ∧
      o.email = masterUser.email := by
  obtain ⟨checked, hchecked⟩ := Option.isSome_iff_exists.mp h
  obtain ⟨⟨user, subUsers⟩, hverified, rfl⟩ := Option.map_eq_some_iff.mp
    (show (verifyUser _ s (some masterUser.email) (some password) false none false).map _ = _
      from hchecked)
  refine ⟨_, by rw [wouldBe, hchecked]; rfl, ?_⟩
  exact (getUser_spec (verifyUser_email hverified).1).2.1

/-- The owners of the entries of a list. -/
def ownersOf (env : Env) (s : World) (masterUserId : Option ℕ) (auths : List SubUserAuth) :
    List Owner :=
  auths.filterMap (wouldBe env s masterUserId)

theorem mem_ownersOf {masterUserId : Option ℕ} {auths : List SubUserAuth} {auth : SubUserAuth}
    (hauth : auth ∈ auths) {o : Owner} (ho : wouldBe env s masterUserId auth = some o) :
    o ∈ ownersOf env s masterUserId auths :=
  List.mem_filterMap.mpr ⟨auth, hauth, ho⟩

/-- The entries of a call that creates a sub-account agree. -/
def CreateArgs.agrees (args : CreateArgs) (env : Env) (s : World) : Bool :=
  (verifyUser env.secretKey s args.email args.password false args.token false).all fun verified =>
    AccountsAgree (ownersOf env s verified.1.id
      (args.subAccountApiKeys ++ [masterAuth verified.1 verified.1.password]))

/-- A sub-account that is signed up has no sub-users yet. -/
theorem adding_nil {db db' : Db} {user : User} {owners : List Owner} (h : db.Stored)
    (hins : Db.Inserted db db' user none) (hacc : user.isSubAccount = true)
    (hsub : user.isSubUser = false) : Adding db' user._id owners [] db' where
  stored := h.inserted hins (by simp)
  master := ⟨user, by simp [hins.users], rfl, hacc, hsub⟩
  accounts := fun _ ha _ => ha
  kept := fun _ ha => ha
  ordinary := rfl
  subUsersOk := fun _ _ hok => hok
  sessionOk := fun _ hok => hok
  owners := by
    intro u hu
    rcases (h.inserted_iff hins).mp hu with hu | ⟨_, hmaster⟩
    · obtain ⟨u', hu', hid, _⟩ := h.masters _ (Db.mem_subUsersOf.mp hu).2
      have := h.bounded u' hu'
      rw [hid, hins.id] at this
      exact absurd this (lt_irrefl _)
    · cases hmaster
  addedOk := by
    intro v hv
    cases hv
  added := by
    intro v hv
    cases hv

/-- The session of a sub-account whose sub-users have been added. -/
theorem Adding.sessionOk_of {base db : Db} {m : ℕ} {owners : List Owner} {added : List User}
    (h : Adding base m owners added db) {session : Session} (hid : session.user._id = m)
    (hacc : session.user.isSubAccount = true) (hok : db.SubUsersOk m session.subUsers) :
    db.SessionOk session := by
  obtain ⟨u, hu, humaster, huacc, husub⟩ := h.master
  refine ⟨.inl hacc, ?_, ?_, ?_⟩
  · rw [hid, ← humaster]
    exact h.stored.bounded u hu
  · intro u' hu' hid' _
    obtain rfl := h.stored.eq_of_id hu hu' (by rw [humaster, hid', hid])
    exact ⟨huacc, husub⟩
  · rw [hid]
    exact hok

/-- Within the transaction the sub-account is signed up with all its sub-users. -/
theorem wp_createBody {masterUser : User} {password newToken : String} {isNotProtected : Bool}
    {localUsername : Option String} {auths : List SubUserAuth} {s' : World} (hinv : Inv s)
    (hs' : Untouched s s')
    (hagree : AccountsAgree (ownersOf env s masterUser.id
      (auths ++ [masterAuth masterUser masterUser.password]))) (apiKey apiSecret : Option String) :
    wp (do
      let subAccountUser ← signUp env ⟨some masterUser.toAccount, apiKey, apiSecret⟩ password
        isNotProtected true false none localUsername
      let subUsers ← createSubUsers env attempt masterUser password isNotProtected
        subAccountUser._id [] false (auths ++ [masterAuth masterUser masterUser.password])
      setUserSession ⟨subAccountUser, subUsers, newToken⟩)
      (fun _ s' => Inv s') (fun s'' => s''.sessions = s.sessions) s' := by
  have hinv' : Inv s' := inv_congr hs'.1 hs'.2 hinv
  rw [wp_bind]
  refine wp_signUp (s := s') hs'.2 ?_
  intro account user db haccount howner hid hacc hsub hdb
  obtain ⟨hnames, hdb⟩ := insertUser_spec hdb
  have hins : Db.Inserted s'.db db user none := by
    rw [hdb]
    exact ⟨hid, rfl, rfl, by simp, hnames⟩
  have hemail : user.email = masterUser.email := by
    have hsame : account = masterUser.toAccount := (Option.some.inj haccount).symm
    rw [← hsame]
    exact congrArg Owner.email howner
  have hordinary : db.ordinaryUsers = s.db.ordinaryUsers := by
    rw [← hs'.1, hdb, Db.ordinaryUsers, List.filter_append]
    simp [hacc, Db.ordinaryUsers]
  rw [wp_bind]
  apply wp_mono (wp_createSubUsers hagree hordinary password isNotProtected false
    (fun auth hauth o ho => mem_ownersOf hauth ho) (s := { s' with db })
    (adding_nil hinv'.stored hins hacc hsub) hs'.2)
  · rintro subUsers s'' ⟨hsessions, hadding, _, hall⟩
    have hnewMaster : s''.db.HasMaster user := by
      obtain ⟨hsome, hentry⟩ := hall (masterAuth masterUser masterUser.password) (by simp)
      obtain ⟨o, ho, hoEmail⟩ := wouldBe_masterAuth masterUser.id hsome
      obtain ⟨v, hv, hvEmail⟩ := hentry o ho
      exact ⟨v, hadding.added v hv, (hvEmail.trans hoEmail).trans hemail.symm⟩
    refine inv_setUserSession hadding.stored ?_ ?_ ?_
    · intro a ha haSub
      have hbase := hadding.accounts a ha haSub
      rw [hins.users, List.mem_append, List.mem_singleton] at hbase
      rcases hbase with hold | rfl
      · exact hadding.kept a ((hinv'.master a hold haSub).inserted hinv'.stored hins)
      · exact hnewMaster
    · intro token session hval
      rw [hsessions, ← hs'.2] at hval
      exact hadding.sessionOk session ((hinv'.sessions token session hval).inserted hins)
    · exact hadding.sessionOk_of rfl hacc hadding.addedOk
  · exact fun _ h => h

theorem wp_createSubAccount {args : CreateArgs} (hinv : Inv s)
    (hcommit : ∀ t ∈ env.throws, t.point ≠ .commit) (hagrees : args.agrees env s = true) :
    wp (createSubAccount env args) (fun _ s' => Inv s') Inv s := by
  rw [createSubAccount, wp_bind]
  apply wp_pass
  · rw [wp_bind, wp_read, wp_bind, wp_orFail]
    refine ⟨?_, fun _ => hinv⟩
    rintro ⟨masterUser, subUsers⟩ hverified
    have hagree : AccountsAgree (ownersOf env s masterUser.id
        (args.subAccountApiKeys ++ [masterAuth masterUser masterUser.password])) := by
      simpa [CreateArgs.agrees, hverified] using hagrees
    dsimp only
    rw [wp_bind, wp_failIf]
    refine ⟨fun _ => hinv, fun _ => ?_⟩
    apply wp_mono (wp_executeQueriesInTrans (Q := fun _ s' => Inv s') (s := s) hcommit
      (fun _ s' _ hs' => inv_congr (s := s') rfl rfl hs') ?_ ⟨rfl, rfl⟩)
    · exact fun _ _ h => h
    · exact fun s' hs' => inv_congr hs'.1 hs'.2 hinv
    · intro attempt s' hs'
      rw [wp_bind]
      apply wp_pass
      · exact wp_createBody hinv hs' hagree _ _
      · exact hs'.2
  · exact hinv

end Create

section Update

/-- What is verified is in order as a session. -/
theorem Inv.verifyUser_ok (hinv : Inv s) {secretKey : String} {email password token : Option String}
    {user : User} {subUsers : List User}
    (h : verifyUser secretKey s email password true token true = some (user, subUsers))
    (newToken : String) : s.db.SessionOk ⟨user, subUsers, newToken⟩ := by
  cases email with
  | some email =>
    obtain ⟨hrow, rfl⟩ := verifyUser_email h
    obtain ⟨hmem, _, hacc, hsub⟩ := getUser_spec hrow
    refine ⟨.inl hacc, hinv.stored.bounded user hmem, ?_, hinv.stored.subUsersOk user._id⟩
    intro u hu hid _
    obtain rfl := hinv.stored.eq_of_id hu hmem hid
    exact ⟨hacc, hsub⟩
  | none =>
    obtain ⟨session, hsession, hif⟩ := Option.bind_eq_some_iff.mp h
    obtain ⟨_, heq⟩ := Option.ite_none_right_eq_some.mp hif
    cases heq
    obtain ⟨token', _, hval⟩ := Option.bind_eq_some_iff.mp hsession
    have hok := hinv.sessions token' session hval
    exact ⟨hok.isSubAccount, hok.bounded, hok.row, hok.subUsers⟩

/-- The API knows the user under the stored e-mail, or does not answer. -/
def Env.knowsEmail (env : Env) (user : User) : Bool :=
  match env.checkAuth (user.apiKey.getD "") (user.apiSecret.getD "") with
  | .user account => account.email = user.email
  | _ => true

/-- The rows as signing in refreshes them. -/
def refreshedRow (user fresh : User) (ids : List ℕ) (row : User) : User :=
  let row := if row._id = user._id ∧ row.email = user.email then row.refreshedBy fresh else row
  if row._id ∈ ids then { row with isStagingBfxApi := fresh.isStagingBfxApi } else row

theorem refreshedRow_same {user fresh : User} (hemail : fresh.email = user.email) (ids : List ℕ)
    (row : User) :
    (refreshedRow user fresh ids row)._id = row._id ∧
      (refreshedRow user fresh ids row).email = row.email ∧
      (refreshedRow user fresh ids row).isSubAccount = row.isSubAccount ∧
      (refreshedRow user fresh ids row).isSubUser = row.isSubUser := by
  unfold refreshedRow
  by_cases hrow : row._id = user._id ∧ row.email = user.email
  · simp only [hrow, and_self, if_true]
    split_ifs <;> simp [User.refreshedBy, hrow, hemail]
  · simp only [hrow, if_false]
    split_ifs <;> simp

theorem ownerOf_refreshedRow {user : User} {row : User} (fresh : User) (ids : List ℕ)
    (hne : row._id ≠ user._id) : ownerOf (refreshedRow user fresh ids row) = ownerOf row := by
  unfold refreshedRow
  simp only [hne, false_and, if_false]
  split_ifs <;> rfl

/-- Signing in to a sub-account refreshes its row, and the flags of its sub-users. -/
theorem refreshed_updateUser (hinv : Inv s) {user fresh : User} {subUsers : List User}
    {token : String} (hok : s.db.SessionOk ⟨user, subUsers, token⟩)
    (hacc : user.isSubAccount = true) (hemail : fresh.email = user.email) {db : Db}
    (hdb : s.db.updateUser user._id user.email fresh = some db) :
    Db.Refreshed s.db (db.updateSubUsers (subUsers.map User._id) fresh.isStagingBfxApi)
        (refreshedRow user fresh (subUsers.map User._id)) ∧
      (db.updateSubUsers (subUsers.map User._id) fresh.isStagingBfxApi).ordinaryUsers =
        s.db.ordinaryUsers := by
  unfold Db.updateUser at hdb
  split_ifs at hdb with htaken
  obtain rfl := Option.some.inj hdb
  have husers : (s.db.users.map fun row => if row._id = user._id ∧ row.email = user.email then
      row.refreshedBy fresh else row).map (fun row => if row._id ∈ subUsers.map User._id then
        { row with isStagingBfxApi := fresh.isStagingBfxApi } else row) =
      s.db.users.map (refreshedRow user fresh (subUsers.map User._id)) := by
    rw [List.map_map]
    rfl
  have hne : ∀ u ∈ s.db.users, u.isSubUser = true → u._id ≠ user._id := by
    intro u hu hsub hid
    rw [(hok.row u hu hid hacc).2] at hsub
    cases hsub
  have hsame := refreshedRow_same hemail (subUsers.map User._id)
  refine ⟨⟨husers, rfl, rfl, fun u _ => hsame u, ?_, ?_⟩, ?_⟩
  · intro u hu hsub
    exact ownerOf_refreshedRow fresh _ (hne u hu hsub)
  · have hname : ∀ u, (refreshedRow user fresh (subUsers.map User._id) u).username =
        if u._id = user._id ∧ u.email = user.email then fresh.username else u.username := by
      intro u
      unfold refreshedRow
      dsimp only
      split_ifs <;> rfl
    rw [List.pairwise_map]
    refine (hinv.stored.ids.and hinv.stored.names).imp_of_mem ?_
    rintro u u' hu hu' ⟨hid, hnames⟩ ⟨hmail, husername⟩
    rw [(hsame u).2.1, (hsame u').2.1] at hmail
    rw [hname, hname] at husername
    split_ifs at husername with hrow hrow' hrow'
    · exact hid (hrow.1.trans hrow'.1.symm)
    · apply htaken
      refine ⟨⟨u, hu, hrow⟩, u', hu', fun heq => hid (hrow.1.trans heq.symm), ?_, husername.symm⟩
      rw [← hmail, hrow.2, hemail]
    · apply htaken
      refine ⟨⟨u', hu', hrow'⟩, u, hu, fun heq => hid (heq.trans hrow'.1.symm), ?_, husername⟩
      rw [hmail, hrow'.2, hemail]
    · exact hnames ⟨hmail, husername⟩
  · have hordinary : ∀ u ∈ s.db.ordinaryUsers,
        refreshedRow user fresh (subUsers.map User._id) u = u := by
      intro u hu
      obtain ⟨hmem, hflags⟩ := List.mem_filter.mp hu
      simp only [Bool.and_eq_true, decide_eq_true_eq] at hflags
      have hid : u._id ≠ user._id := by
        intro hid
        have := (hok.row u hmem hid hacc).1
        rw [hflags.1] at this
        cases this
      have hids : u._id ∉ subUsers.map User._id := by
        intro hin
        obtain ⟨v, hv, heq⟩ := List.mem_map.mp hin
        have := ((hok.subUsers v hv).2 u hmem heq.symm).1
        rw [hflags.2] at this
        cases this
      unfold refreshedRow
      simp only [hid, false_and, if_false, hids]
    calc _ = (s.db.users.map (refreshedRow user fresh (subUsers.map User._id))).filter
          (fun user => user.isSubAccount = false && user.isSubUser = false) := by
          rw [← husers]
          rfl
      _ = s.db.ordinaryUsers.map (refreshedRow user fresh (subUsers.map User._id)) := by
          rw [List.filter_map, Db.ordinaryUsers]
          congr 1
          apply List.filter_congr
          intro u _
          simp only [Function.comp_apply, (hsame u).2.2.1, (hsame u).2.2.2]
      _ = s.db.ordinaryUsers := by
          rw [List.map_congr_left hordinary, List.map_id']

theorem freshUserData_spec {user fresh : User} {newAuthToken : Option String}
    (hknows : env.knowsEmail user = true) (h : freshUserData env user newAuthToken
      (env.checkAuth (user.apiKey.getD "") (user.apiSecret.getD "")) = some fresh) :
    fresh.email = user.email ∧ fresh._id = user._id ∧ fresh.isSubAccount = user.isSubAccount ∧
      fresh.apiKey = user.apiKey ∧ fresh.apiSecret = user.apiSecret ∧
      fresh.password = user.password := by
  unfold Env.knowsEmail at hknows
  cases hres : env.checkAuth (user.apiKey.getD "") (user.apiSecret.getD "") with
  | user account =>
    rw [hres] at h hknows
    cases h
    exact ⟨of_decide_eq_true hknows, rfl, rfl, rfl, rfl, rfl⟩
  | netError =>
    rw [hres] at h
    cases h
    exact ⟨rfl, rfl, rfl, rfl, rfl, rfl⟩
  | error =>
    rw [hres] at h
    cases h

/-- The session of a user who has signed in, and the refreshed rows. -/
structure SignedIn (env : Env) (args : UpdateArgs) (s : World) (session : Session) (user : User)
    (db : Db) : Prop where
  verified : verifyUser env.secretKey s args.email args.password true args.token true =
    some (user, session.subUsers)
  id : session.user._id = user._id
  email : session.user.email = user.email
  isSubAccount : session.user.isSubAccount = user.isSubAccount
  apiKey : session.user.apiKey = user.apiKey
  apiSecret : session.user.apiSecret = user.apiSecret
  password : session.user.password = user.password
  row : ∃ row ∈ s.db.users, row._id = user._id ∧ row.email = user.email
  refreshed : user.isSubAccount = true →
    (∃ f, Db.Refreshed s.db db f) ∧ db.ordinaryUsers = s.db.ordinaryUsers

theorem wp_signIn {args : UpdateArgs} {s' : World} (hinv : Inv s) (hs' : Untouched s s')
    (hauth : hasNoAuthToken env args s = true)
    (hknows : ∀ verified, verifyUser env.secretKey s args.email args.password true args.token
      true = some verified → env.knowsEmail verified.1 = true) :
    wp (signIn env attempt args.email args.password args.token)
      (fun session s'' => s''.sessions = s.sessions ∧
        ∃ user, SignedIn env args s session user s''.db)
      (fun s'' => s''.sessions = s.sessions) s' := by
  obtain ⟨hdb', hsessions'⟩ := hs'
  rw [signIn, wp_bind]
  apply wp_pass
  · rw [wp_bind, wp_read, wp_bind, wp_orFail, verifyUser_congr hdb' hsessions']
    refine ⟨?_, fun _ => hsessions'⟩
    rintro ⟨user, subUsers⟩ hverified
    have hnone : user.authToken = none := by
      simpa [hasNoAuthToken, hverified] using hauth
    dsimp only
    rw [wp_bind]
    apply wp_pass
    · rw [wp_bind, wp_failIf]
      refine ⟨fun _ => hsessions', fun _ => ?_⟩
      rw [wp_bind]
      apply wp_pass
      · rw [wp_bind, wp_orFail]
        refine ⟨?_, fun _ => hsessions'⟩
        intro fresh hfresh
        obtain ⟨hemail, hid, hacc, hkey, hsecret, hpassword⟩ :=
          freshUserData_spec (hknows _ hverified) hfresh
        rw [wp_bind]
        apply wp_pass
        · rw [wp_bind, wp_orFail]
          refine ⟨?_, fun _ => hsessions'⟩
          intro db hdb
          rw [wp_bind, writeDb, wp_write, wp_bind]
          apply wp_pass
          · rw [wp_bind, writeDb, wp_write, wp_bind, wp_failIf]
            refine ⟨fun _ => hsessions', fun hrow => ?_⟩
            simp only [hnone, Option.isSome_none, Bool.false_eq_true, if_false, wp_pure]
            refine ⟨hsessions', user, hverified, hid, hemail, hacc, hkey, hsecret, hpassword,
              ?_, ?_⟩
            · simp only [decide_eq_false_iff_not, not_not, hdb'] at hrow
              exact hrow
            · intro hisSub
              rw [hdb'] at hdb
              obtain ⟨href, hordinary⟩ := refreshed_updateUser hinv
                (hinv.verifyUser_ok hverified "") hisSub hemail hdb
              exact ⟨⟨_, href⟩, hordinary⟩
          · exact hsessions'
        · exact hsessions'
      · exact hsessions'
    · exact hsessions'
  · exact hsessions'

local instance lawfulBEq_option : LawfulBEq (Option String) := inferInstance

/-- The entries of an update agree with each other and with the sub-users there are, the
e-mail of the sub-account is the one the API knows, and it is not to be removed. -/
def UpdateArgs.agrees (args : UpdateArgs) (env : Env) (s : World) : Bool :=
  (verifyUser env.secretKey s args.email args.password true args.token true).all fun verified =>
    env.knowsEmail verified.1 && some verified.1.email ∉ args.removingSubUsersByEmails &&
      (verified.2.find? fun subUser => subUser.email = verified.1.email).all fun masterUser =>
        AccountsAgree ((s.db.subUsersOf verified.1._id).map ownerOf ++
          ownersOf env s masterUser.id
            (args.addingSubUsers ++ [masterAuth masterUser verified.1.password]))

theorem without_nil (db : Db) : Db.Without db db [] := by
  constructor <;> simp

/-- Sub-users of some ids are removed, if there are any. -/
theorem wp_removing (hstored : s.db.Stored) {removing : List User}
    (hids : ∀ u ∈ s.db.users, u._id ∈ removing.map User._id → u.isSubUser = true) :
    wp (skipIf removing.isEmpty (removeSubUsers env attempt (removing.map User._id)))
      (fun _ s' => s'.sessions = s.sessions ∧ Db.Without s.db s'.db (removing.map User._id))
      (fun s' => s'.sessions = s.sessions) s := by
  rw [wp_skipIf]
  constructor
  · intro hnil
    rw [List.isEmpty_iff.mp hnil]
    exact ⟨rfl, without_nil s.db⟩
  · intro _
    rw [removeSubUsers, wp_bind]
    apply wp_pass
    · rw [wp_bind, wp_read, wp_bind, writeDb, wp_write, wp_failIf]
      exact ⟨fun _ => rfl, fun _ => ⟨rfl, hstored.without_removeUsers hids⟩⟩
    · rfl

/-- The tables of users and sub-accounts. -/
def tables (s : World) : List User × ℕ × List (ℕ × ℕ) :=
  (s.db.users, s.db.nextId, s.db.subAccounts)

theorem keeps_tables_resetLedgers (masterUserId : ℕ) :
    Keeps tables (resetLedgers env attempt masterUserId) := by
  have htemp : ∀ n, Keeps tables (resetTempLedgers env attempt masterUserId n) := by
    intro n
    induction n with
    | zero => exact keeps_pure _
    | succ n ih =>
      apply Keeps.bind ih
      intro _
      exact Keeps.bind (keeps_pass _ _) fun _ => keeps_write fun _ => rfl
  apply Keeps.bind (keeps_pass _ _)
  intro _
  apply Keeps.bind
  · exact keeps_write fun _ => rfl
  · intro _
    apply Keeps.bind (keeps_pass _ _)
    intro _
    exact Keeps.bind keeps_read fun _ => htemp _

theorem Without.congr {db : Db} {ids : List ℕ} {s s' : World} (h : Db.Without db s.db ids)
    (htables : tables s' = tables s) : Db.Without db s'.db ids := by
  simp only [tables, Prod.mk.injEq] at htables
  obtain ⟨husers, hnextId, hsubAccounts⟩ := htables
  exact ⟨husers.trans h.users, hnextId.trans h.nextId, hsubAccounts.trans h.subAccounts⟩

/-- The tables after an update, and the session that belongs to them. -/
structure Updated (s : World) (session : Session) (db : Db) : Prop where
  stored : db.Stored
  master : ∀ a ∈ db.users, a.isSubAccount = true → db.HasMaster a
  sessionOk : ∀ session', s.db.SessionOk session' → db.SessionOk session'
  session : db.SessionOk session

/-- Sub-users may be added to a sub-account that has been signed in to. -/
theorem SignedIn.adding {args : UpdateArgs} {session : Session} {user : User} {db : Db}
    (h : SignedIn env args s session user db) (hinv : Inv s) (hacc : user.isSubAccount = true)
    {owners : List Owner} (howners : ∀ u ∈ s.db.subUsersOf user._id, ownerOf u ∈ owners) :
    Adding db user._id owners [] db := by
  obtain ⟨⟨f, hf⟩, _⟩ := h.refreshed hacc
  obtain ⟨row, hrow, hid, _⟩ := h.row
  have hok := hinv.verifyUser_ok h.verified ""
  refine ⟨hinv.stored.refreshed hf, ?_, fun _ ha _ => ha, fun _ ha => ha, rfl, fun _ _ hv => hv,
    fun _ hv => hv, ?_, fun v hv => absurd hv List.not_mem_nil,
    fun v hv => absurd hv List.not_mem_nil⟩
  · obtain ⟨hrowAcc, hrowSub⟩ := hok.row row hrow hid hacc
    obtain ⟨hid', _, hacc', hsub'⟩ := hf.same row hrow
    exact ⟨f row, hf.mem_users.mpr ⟨row, hrow, rfl⟩, hid'.trans hid, hacc'.trans hrowAcc,
      hsub'.trans hrowSub⟩
  · intro u hu
    obtain ⟨v, hv, rfl⟩ := hf.mem_subUsersOf.mp hu
    rw [hf.subUser v (Db.mem_subUsersOf.mp hv).1 (hinv.stored.isSubUser_of_mem hv)]
    exact howners v hv

/-- The sub-users of the session are still sub-users when others have been added. -/
theorem SignedIn.isSubUser_of_mem {args : UpdateArgs} {session : Session} {user : User}
    {db db₁ : Db} (h : SignedIn env args s session user db) (hinv : Inv s)
    (hacc : user.isSubAccount = true) {owners : List Owner} {added : List User}
    (hadding : Adding db user._id owners added db₁) {removing : List User}
    (hremoving : ∀ v ∈ removing, v ∈ session.subUsers ∧
      some v.email ∈ args.removingSubUsersByEmails) :
    ∀ u ∈ db₁.users, u._id ∈ removing.map User._id → u.isSubUser = true := by
  obtain ⟨⟨f, hf⟩, _⟩ := h.refreshed hacc
  have hok := hinv.verifyUser_ok h.verified ""
  intro u hu hid
  obtain ⟨v, hv, heq⟩ := List.mem_map.mp hid
  have hadded := hadding.subUsersOk _ _ (hok.subUsers.refreshed hf) v (hremoving v hv).1
  exact (hadded.2 u hu heq.symm).1

/-- After sub-users have been added and others, but the master, removed. -/
theorem SignedIn.updated {args : UpdateArgs} {session : Session} {user : User} {db db₁ db₂ : Db}
    (h : SignedIn env args s session user db) (hinv : Inv s) (hacc : user.isSubAccount = true)
    {owners : List Owner} {added : List User} (hadding : Adding db user._id owners added db₁)
    (hkeeps : some user.email ∉ args.removingSubUsersByEmails) {removing : List User}
    (hremoving : ∀ v ∈ removing, v ∈ session.subUsers ∧
      some v.email ∈ args.removingSubUsersByEmails)
    (hwithout : Db.Without db₁ db₂ (removing.map User._id)) {subUsers : List User}
    (hsubUsers : ∀ v ∈ subUsers, v ∈ session.subUsers ++ added) :
    Updated s { session with subUsers } db₂ := by
  obtain ⟨⟨f, hf⟩, _⟩ := h.refreshed hacc
  have hok := hinv.verifyUser_ok h.verified ""
  have hlist : db₁.SubUsersOk user._id session.subUsers :=
    hadding.subUsersOk _ _ (hok.subUsers.refreshed hf)
  have hids := h.isSubUser_of_mem hinv hacc hadding hremoving
  have hstored := hadding.stored.without hwithout hids
  refine ⟨hstored, ?_, ?_, ?_⟩
  · intro a ha haSub
    have ha₁ := (hwithout.mem_users.mp ha).1
    have habase := hadding.accounts a ha₁ haSub
    obtain ⟨a₀, ha₀, rfl⟩ := hf.mem_users.mp habase
    obtain ⟨hid, hemail, hacc', _⟩ := hf.same a₀ ha₀
    have hmaster := (hinv.master a₀ ha₀ (hacc'.symm.trans haSub)).refreshed hf ha₀
    obtain ⟨v, hv, hvEmail⟩ := hadding.kept _ hmaster
    refine ⟨v, (hwithout.mem_subUsersOf hadding.stored hids).mpr ⟨hv, ?_⟩, hvEmail⟩
    -- the master would be among the removed ones under the e-mail of the sub-account
    intro hmem
    obtain ⟨w, hw, heq⟩ := List.mem_map.mp hmem
    obtain ⟨hwIn, hwRemoved⟩ := hremoving w hw
    obtain ⟨hvRow, hvLink⟩ := Db.mem_subUsersOf.mp hv
    obtain ⟨_, hwEmail, hwLinks⟩ := (hlist w hwIn).2 v hvRow heq.symm
    have hm : a₀._id = user._id := by
      rw [← hid]
      exact hwLinks _ hvLink heq.symm
    obtain ⟨row, hrow, hrowId, hrowEmail⟩ := h.row
    obtain rfl := hinv.stored.eq_of_id ha₀ hrow (hm.trans hrowId.symm)
    apply hkeeps
    rw [← hrowEmail, ← hemail, ← hvEmail, hwEmail]
    exact hwRemoved
  · intro session' hok'
    exact (hadding.sessionOk session' (hok'.refreshed hf)).without hwithout
  · have hsub : db₁.SubUsersOk user._id subUsers := (hlist.append hadding.addedOk).subset hsubUsers
    have hsession : db₁.SessionOk { session with subUsers } :=
      hadding.sessionOk_of h.id (h.isSubAccount.trans hacc) hsub
    exact hsession.without hwithout

theorem wp_refreshSubAccount {args : UpdateArgs} {s' : World} (hinv : Inv s)
    (hs' : Untouched s s') (hauth : hasNoAuthToken env args s = true)
    (hagrees : args.agrees env s = true) :
    wp (refreshSubAccount env args attempt)
      (fun session s'' => s''.sessions = s.sessions ∧ Updated s session s''.db)
      (fun s'' => s''.sessions = s.sessions) s' := by
  have hagrees' : ∀ verified, verifyUser env.secretKey s args.email args.password true args.token
      true = some verified → env.knowsEmail verified.1 = true ∧
        some verified.1.email ∉ args.removingSubUsersByEmails ∧
        ∀ masterUser, verified.2.find? (fun subUser => subUser.email = verified.1.email) =
            some masterUser →
          AccountsAgree ((s.db.subUsersOf verified.1._id).map ownerOf ++
            ownersOf env s masterUser.id
              (args.addingSubUsers ++ [masterAuth masterUser verified.1.password])) := by
    intro verified hverified
    simp only [UpdateArgs.agrees, hverified, Option.all_some, Bool.and_eq_true,
      decide_eq_true_eq] at hagrees
    refine ⟨hagrees.1.1, hagrees.1.2, ?_⟩
    intro masterUser hfind
    simpa [hfind] using hagrees.2
  rw [refreshSubAccount, wp_bind]
  apply wp_mono (wp_signIn hinv hs' hauth fun verified hverified => (hagrees' verified hverified).1)
  · rintro session s₁ ⟨hs₁, user, hsigned⟩
    obtain ⟨_, hkeeps, hagree⟩ := hagrees' _ hsigned.verified
    rw [wp_bind, wp_failIf]
    refine ⟨fun _ => hs₁, fun hvalid => ?_⟩
    have hacc : user.isSubAccount = true := by
      simp only [UpdateArgs.areInvalid, Bool.or_eq_false_iff, Bool.not_eq_false',
        hsigned.apiKey, hsigned.apiSecret] at hvalid
      apply (hinv.verifyUser_ok hsigned.verified "").isSubAccount.resolve_right
      simp [hvalid.1.1.1.2]
    rw [wp_bind, wp_orFail]
    refine ⟨?_, fun _ => hs₁⟩
    intro masterUser hmaster
    rw [hsigned.email] at hmaster
    have hagree := hagree masterUser hmaster
    rw [wp_bind, hsigned.password]
    apply wp_mono (wp_addSubUsers hagree (hsigned.refreshed hacc).2 hsigned.id
      (fun auth hauth o ho => List.mem_append_right _ (mem_ownersOf hauth ho)) []
      (hsigned.adding hinv hacc fun u hu =>
        List.mem_append_left _ (List.mem_map_of_mem hu)) hs₁)
    · rintro added s₂ ⟨hs₂, hadding⟩
      have hremoving : ∀ v ∈ session.subUsers.filter fun subUser =>
          some subUser.email ∈ args.removingSubUsersByEmails,
          v ∈ session.subUsers ∧ some v.email ∈ args.removingSubUsersByEmails := by
        intro v hv
        obtain ⟨hin, hemail⟩ := List.mem_filter.mp hv
        exact ⟨hin, of_decide_eq_true hemail⟩
      have hids := hsigned.isSubUser_of_mem hinv hacc hadding hremoving
      rw [wp_bind]
      apply wp_mono (wp_removing hadding.stored hids)
      · rintro _ s₃ ⟨hs₃, hwithout⟩
        rw [wp_bind]
        apply wp_mono (wp_and
          (keeps_iff.mp (Keeps.skipIf _ (keeps_tables_resetLedgers session.user._id)) s₃)
          (keeps_iff.mp
            (Keeps.skipIf _ (keeps_resetLedgers ignoresDb_sessions session.user._id)) s₃))
        · rintro _ s₄ ⟨htables, hs₄⟩
          refine ⟨(hs₄.trans hs₃).trans hs₂, ?_⟩
          apply hsigned.updated hinv hacc hadding hkeeps hremoving (Without.congr hwithout htables)
          intro v hv
          exact (List.mem_insertionSort _).mp (List.mem_filter.mp hv).1
        · rintro s₄ ⟨_, hs₄⟩
          exact (hs₄.trans hs₃).trans hs₂
      · exact fun s₃ hs₃ => hs₃.trans hs₂
    · exact fun _ h => h
  · exact fun _ h => h

theorem wp_updateSubAccount_inv {args : UpdateArgs} (hinv : Inv s)
    (hcommit : ∀ t ∈ env.throws, t.point ≠ .commit) (hauth : hasNoAuthToken env args s = true)
    (hagrees : args.agrees env s = true) :
    wp (updateSubAccount env args) (fun _ s' => Inv s') Inv s := by
  have hs : Untouched s { s with isSchedulerEnabled := false } := ⟨rfl, rfl⟩
  rw [updateSubAccount, wp_bind]
  apply wp_pass
  · rw [wp_bind, wp_write, wp_bind]
    apply wp_pass
    · rw [wp_bind]
      apply wp_mono (wp_executeQueriesInTrans (Q := fun _ s' => Inv s') (s := s) hcommit
        (fun _ s' _ hs' => inv_congr (s := s') rfl rfl hs') ?_ hs)
      · intro _ s' hs'
        rw [wp_bind]
        apply wp_pass
        · rw [wp_bind, wp_write]
          apply wp_pass
          · exact inv_congr (s := s') rfl rfl hs'
          · exact inv_congr (s := s') rfl rfl hs'
        · exact hs'
      · exact fun s' hs' => inv_congr hs'.1 hs'.2 hinv
      · intro attempt s' hs'
        rw [wp_bind]
        apply wp_mono (wp_refreshSubAccount hinv hs' hauth hagrees)
        · rintro session s'' ⟨hs'', hupdated⟩
          apply inv_setUserSession hupdated.stored hupdated.master ?_ hupdated.session
          intro token session' hval
          rw [hs''] at hval
          exact hupdated.sessionOk session' (hinv.sessions token session' hval)
        · exact fun _ h => h
    · exact inv_congr (s := s) rfl rfl hinv
  · exact hinv

end Update

section Runs

inductive Action
  | create (env : Env) (args : CreateArgs)
  | update (env : Env) (args : UpdateArgs)

def Action.newToken : Action → String
  | create env _ => env.newToken
  | update env _ => env.newToken

/-- The state a call leaves, whether it throws or not. -/
def Action.run : Action → World → World
  | create env args, s => (createSubAccount env args s).2
  | update env args, s => (updateSubAccount env args s).2

/-- Users who are signed up, some of them with sessions, and no sub-accounts.  A generated
token is in no use. -/
def machine : Machine World Action where
  init s := s.db.Stored ∧ s.db.subAccounts = [] ∧
    (∀ u ∈ s.db.users, u.isSubAccount = false ∧ u.isSubUser = false) ∧
    ∀ token session, s.sessions.val token = some session → session.subUsers = [] ∧
      session.user._id < s.db.nextId ∧ session.user.isSubAccount = false ∧
      isSubAccountApiKeys session.user.apiKey session.user.apiSecret = false
  step s a := if s.sessions.val a.newToken = none then some (a.run s) else none

/-- No commit throws, the accounts of the call agree with each other and with the
sub-users there are, and an update is of a sub-account and does not remove its master. -/
def keepsMembership (s : World) : Action → Bool
  | .create env args => env.throws.all (fun t => t.point ≠ .commit) && args.agrees env s
  | .update env args => env.throws.all (fun t => t.point ≠ .commit) &&
      hasNoAuthToken env args s && args.agrees env s

theorem wp_snd {α : Type} {x : Call α} {I : World → Prop} (h : wp x (fun _ s' => I s') I s) :
    I (x s).2 := by
  unfold wp at h
  cases hx : x s with
  | mk res s' =>
    rw [hx] at h
    cases res <;> exact h

theorem inv_of_reachable (h : machine.Reachable (keepsMembership · ·) s) : Inv s := by
  apply h.invariant
  · rintro s ⟨hstored, hlinks, husers, hsessions⟩
    refine ⟨hstored, ?_, ?_⟩
    · intro a ha haSub
      rw [(husers a ha).1] at haSub
      cases haSub
    · intro token session hval
      obtain ⟨hsubUsers, hbounded, hacc, hkeys⟩ := hsessions token session hval
      refine ⟨.inr hkeys, hbounded, ?_, ?_⟩
      · intro u _ _ haSub
        rw [hacc] at haSub
        cases haSub
      · rw [hsubUsers]
        exact fun v hv => absurd hv List.not_mem_nil
  · intro s a s' hinv hp hstep
    dsimp only [machine] at hstep
    split_ifs at hstep
    obtain rfl := Option.some.inj hstep
    cases a with
    | create env args =>
      simp only [keepsMembership, Bool.and_eq_true, List.all_eq_true, decide_eq_true_eq] at hp
      exact wp_snd (wp_createSubAccount hinv hp.1 hp.2)
    | update env args =>
      simp only [keepsMembership, Bool.and_eq_true, List.all_eq_true, decide_eq_true_eq] at hp
      exact wp_snd (wp_updateSubAccount_inv hinv hp.1.1 hp.1.2 hp.2)

/-- A sub-account has its master sub-user, its sub-users have different e-mails and
different api keys, and each is linked once. -/
def IsMember (db : Db) (a : User) : Prop :=
  (∃ u ∈ db.subUsersOf a._id, u.email = a.email) ∧
    ((db.subUsersOf a._id).Pairwise fun u u' => u.email ≠ u'.email ∧
      ¬ (u.apiKey = u'.apiKey ∧ u.apiSecret = u'.apiSecret)) ∧
    ∀ u ∈ db.subUsersOf a._id, db.subAccounts.count (a._id, u._id) = 1

instance (db : Db) (a : User) : Decidable (IsMember db a) :=
  inferInstanceAs (Decidable (_ ∧ _ ∧ _))

theorem Db.Stored.pairwise_subUsersOf {db : Db} (h : db.Stored) (m : ℕ) :
    (db.subUsersOf m).Pairwise fun u u' => u.email ≠ u'.email ∧
      ¬ (u.apiKey = u'.apiKey ∧ u.apiSecret = u'.apiSecret) := by
  have hcount : ∀ link, db.subAccounts.count link ≤ 1 :=
    List.nodup_iff_count_le_one.mp (List.Nodup.of_map _ h.once)
  refine List.pairwise_flatMap.mpr ⟨?_, ?_⟩
  · intro u _
    apply List.pairwise_replicate.mpr
    exact .inl (hcount _)
  · refine h.ids.imp_of_mem ?_
    intro u u' hu hu' hid x hx y hy
    obtain ⟨hne, rfl⟩ := List.mem_replicate.mp hx
    obtain ⟨hne', rfl⟩ := List.mem_replicate.mp hy
    have hmem := Db.mem_subUsersOf.mpr ⟨hu, List.count_pos_iff.mp (Nat.pos_of_ne_zero hne)⟩
    have hmem' := Db.mem_subUsersOf.mpr ⟨hu', List.count_pos_iff.mp (Nat.pos_of_ne_zero hne')⟩
    have hapart : ¬ (ownerOf x).Meets (ownerOf y) := by
      intro hmeets
      exact hid (congrArg User._id (h.apart m x hmem y hmem' hmeets))
    exact ⟨fun hemail => hapart (.inl hemail), fun hkeys => hapart (.inr hkeys)⟩

/-- In every run whose calls meet the condition, every sub-account is as it should be. -/
theorem membership_kept (h : machine.Reachable (keepsMembership · ·) s) :
    ∀ a ∈ s.db.users, a.isSubAccount = true → IsMember s.db a := by
  have hinv := inv_of_reachable h
  intro a ha haSub
  refine ⟨hinv.master a ha haSub, hinv.stored.pairwise_subUsersOf a._id, ?_⟩
  intro u hu
  exact List.count_eq_one_of_mem (List.Nodup.of_map _ hinv.stored.once) (Db.mem_subUsersOf.mp hu).2

end Runs

namespace AliceWitness

/-- The e-mail of the sub-account is to be removed. -/
def removeMaster : UpdateArgs := ⟨none, none, some "token", [], [some "a@host"]⟩

/-- The sub-account is to be added by its own token. -/
def addItself : UpdateArgs := ⟨none, none, some "token", [byToken "token"], []⟩

def emailsOf (s : World) (masterUserId : ℕ) : List String :=
  (s.db.subUsersOf masterUserId).map fun user => user.email

theorem init_start : machine.init start := by
  refine ⟨⟨by decide, by decide, by decide, by decide, by decide, by decide, ?_⟩, rfl, by decide,
    ?_⟩
  · intro m u hu
    exact absurd (Db.mem_subUsersOf.mp hu).2 List.not_mem_nil
  · intro token session hval
    cases hval

theorem step_created (p : World → Action → Prop) (h : p start (.create (api "token" []) create)) :
    machine.Reachable p created :=
  .step (.init init_start) h rfl

theorem step_updated (p : World → Action → Prop) (args : UpdateArgs)
    (hcreate : p start (.create (api "token" []) create))
    (h : p created (.update (api "token'" []) args)) :
    machine.Reachable p (updateSubAccount (api "token'" []) args created).2 := by
  apply (step_created p hcreate).step h
  have hfree : created.sessions.val "token'" = none := by decide +kernel
  show (if created.sessions.val "token'" = none then some _ else none) = some _
  rw [if_pos hfree]
  rfl

/-- Both calls go through: one leaves the sub-account without its master, the other with
two sub-users of one e-mail. -/
theorem membership_broken :
    (machine.Reachable Machine.free (updateSubAccount (api "token'" []) removeMaster created).2 ∧
      (updateSubAccount (api "token'" []) removeMaster created).1.isOk = true ∧
      emailsOf (updateSubAccount (api "token'" []) removeMaster created).2 3 = ["b@host"] ∧
      ¬ ∀ a ∈ (updateSubAccount (api "token'" []) removeMaster created).2.db.users,
        a.isSubAccount = true →
          IsMember (updateSubAccount (api "token'" []) removeMaster created).2.db a) ∧
    (machine.Reachable Machine.free (updateSubAccount (api "token'" []) addItself created).2 ∧
      (updateSubAccount (api "token'" []) addItself created).1.isOk = true ∧
      emailsOf (updateSubAccount (api "token'" []) addItself created).2 3 =
        ["b@host", "a@host", "a@host"] ∧
      ¬ ∀ a ∈ (updateSubAccount (api "token'" []) addItself created).2.db.users,
        a.isSubAccount = true →
          IsMember (updateSubAccount (api "token'" []) addItself created).2.db a) := by
  constructor
  · refine ⟨step_updated _ _ trivial trivial, by decide +kernel, by decide +kernel, ?_⟩
    decide +kernel
  · refine ⟨step_updated _ _ trivial trivial, by decide +kernel, by decide +kernel, ?_⟩
    decide +kernel

theorem membership_kept_of_exchange :
    emailsOf (updateSubAccount (api "token'" []) exchange created).2 3 = ["a@host", "c@host"] ∧
      ∀ a ∈ (updateSubAccount (api "token'" []) exchange created).2.db.users,
        a.isSubAccount = true →
          IsMember (updateSubAccount (api "token'" []) exchange created).2.db a := by
  refine ⟨by decide +kernel, ?_⟩
  have hcreate : keepsMembership start (.create (api "token" []) create) = true := by
    decide +kernel
  have hupdate : keepsMembership created (.update (api "token'" []) exchange) = true := by
    decide +kernel
  exact membership_kept (step_updated (keepsMembership · ·) exchange hcreate hupdate)

end AliceWitness

end SubAccounts

end ReportsFramework
