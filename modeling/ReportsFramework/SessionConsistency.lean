/-
The two session maps stay inverse of each other, and a token stays with its user, as
long as every call is about one user.
-/
import Mathlib.Data.List.Pairwise
import ReportsFramework.UserSessions

namespace ReportsFramework

theorem tokenKey_inj {email email' : String} {isSub isSub' : Bool}
    (h : UserSessions.isEmail email = true) (h' : UserSessions.isEmail email' = true)
    (hkey : getTokenKeyByEmailField (some email) isSub =
      getTokenKeyByEmailField (some email') isSub') : email = email' ∧ isSub = isSub' := by
  have hsuffix : ∀ {e e' : String}, UserSessions.isEmail e' = true →
      e ++ ":sub-account" = e' → False := by
    rintro e _ he' rfl
    have hsuffix := List.isSuffixOf_iff_suffix.mpr
      (List.suffix_append e.toList ":sub-account".toList)
    rw [UserSessions.isEmail, String.toList_append, hsuffix] at he'
    simp at he'
  cases isSub <;> cases isSub' <;> simp [getTokenKeyByEmailField] at hkey
  · exact ⟨hkey, rfl⟩
  · exact (hsuffix h hkey.symm).elim
  · exact (hsuffix h' hkey).elim
  · exact ⟨hkey, rfl⟩

/-- No e-mail has the key of an empty object. -/
theorem tokenKey_ne {email : String} {isSub : Bool} (h : UserSessions.isEmail email = true) :
    getTokenKeyByEmailField (some email) isSub ≠ getTokenKeyByEmailField none false := by
  intro hkey
  cases isSub
  · simp [getTokenKeyByEmailField] at hkey
    simp [UserSessions.isEmail, hkey] at h
  · have hlist := congrArg String.toList hkey
    have hlast := congrArg List.getLast? hlist
    simp [getTokenKeyByEmailField] at hlast

namespace UserSessions

variable {s s' : UserSessions} {user user' : UserRow} {token : String}

/-- A row of the users table is about this user. -/
def Stored (s : UserSessions) (user : UserRow) : Prop :=
  ∃ row ∈ s.users, row.id = user.id ∧ row.email = user.email ∧
    row.isSubAccount = user.isSubAccount

structure Inv (s : UserSessions) : Prop where
  unique : UniqueUsers s.users
  rows : ∀ user ∈ s.users, user.id < s.nextId ∧ isEmail user.email = true
  inverse : s.sessions.Inverse
  stored : ∀ token session, s.sessions.val token = some session → s.Stored session

/-- A token that is bound before and after is bound to the same user. -/
def KeepsUsers (s s' : UserSessions) : Prop :=
  ∀ token session session', s.sessions.val token = some session →
    s'.sessions.val token = some session' → session'.id = session.id

theorem Inv.isEmail (hs : s.Inv) (h : s.Stored user) : isEmail user.email = true := by
  obtain ⟨row, hrow, _, hemail, _⟩ := h
  rw [← hemail]
  exact (hs.rows row hrow).2

theorem UniqueUsers.ne {users : List UserRow} (h : UniqueUsers users) (huser : user ∈ users)
    (huser' : user' ∈ users) (hne : user ≠ user') : user.id ≠ user'.id ∧
      ¬ (user.email = user'.email ∧ user.isSubAccount = user'.isSubAccount) := by
  have hsymm : Std.Symm fun user user' : UserRow => user.id ≠ user'.id ∧
      ¬ (user.email = user'.email ∧ user.isSubAccount = user'.isSubAccount) :=
    ⟨fun _ _ hne => ⟨hne.1.symm, fun heq => hne.2 ⟨heq.1.symm, heq.2.symm⟩⟩⟩
  exact List.Pairwise.forall h huser huser' hne

/-- Id, and e-mail with the sub-account flag, determine each other. -/
theorem Inv.same_iff (hs : s.Inv) (h : s.Stored user) (h' : s.Stored user') :
    user.id = user'.id ↔ user.email = user'.email ∧ user.isSubAccount = user'.isSubAccount := by
  obtain ⟨row, hrow, hid, hemail, hsub⟩ := h
  obtain ⟨row', hrow', hid', hemail', hsub'⟩ := h'
  rw [← hid, ← hemail, ← hsub, ← hid', ← hemail', ← hsub']
  by_cases hsame : row = row'
  · simp [hsame]
  · have hne := hs.unique.ne hrow hrow' hsame
    exact iff_of_false hne.1 hne.2

theorem Inv.tokenKey_eq_iff (hs : s.Inv) (h : s.Stored user) (h' : s.Stored user') :
    Session.tokenKey user = Session.tokenKey user' ↔ user.id = user'.id := by
  rw [hs.same_iff h h']
  constructor
  · exact tokenKey_inj (hs.isEmail h) (hs.isEmail h')
  · rintro ⟨hemail, hsub⟩
    rw [Session.tokenKey, Session.tokenKey, hemail, hsub]

theorem Inv.index_undefined (hs : s.Inv) :
    s.sessions.index (getTokenKeyByEmailField none false) = none := by
  by_contra hne
  obtain ⟨token, hindex⟩ := Option.ne_none_iff_exists'.mp hne
  obtain ⟨session, hval, hkey⟩ := hs.inverse.val_index _ token hindex
  exact tokenKey_ne (hs.isEmail (hs.stored token session hval)) hkey

theorem Inv.setUserSession (hs : s.Inv) (hstored : s.Stored user)
    (hfits : s.sessions.Fits token (Session.tokenKey user)) :
    (s.setUserSession token user).Inv ∧ s.KeepsUsers (s.setUserSession token user) := by
  constructor
  · refine ⟨hs.unique, hs.rows, hs.inverse.set hfits, ?_⟩
    intro token' session hval
    simp only [UserSessions.setUserSession, IndexedMap.val_set] at hval
    split_ifs at hval with htoken
    · obtain rfl := Option.some.inj hval
      exact hstored
    · exact hs.stored token' session hval
  · intro token' session session' hval hval'
    simp only [UserSessions.setUserSession, IndexedMap.val_set] at hval'
    split_ifs at hval' with htoken
    · obtain rfl := Option.some.inj hval'
      subst htoken
      have hkey := hs.inverse.key_eq hfits hval
      exact ((hs.tokenKey_eq_iff (hs.stored _ session hval) hstored).mp hkey).symm
    · rw [hval] at hval'
      obtain rfl := Option.some.inj hval'
      rfl

theorem Inv.stored_of_mem (hrow : user ∈ s.users) : s.Stored user :=
  ⟨user, hrow, rfl, rfl, rfl⟩

/-- A user without an entry has no session. -/
theorem Inv.id_ne (hs : s.Inv) (hstored : s.Stored user)
    (hindex : s.sessions.index (Session.tokenKey user) = none) {session : Session}
    (hval : s.sessions.val token = some session) : session.id ≠ user.id := by
  intro hid
  have hkey := (hs.tokenKey_eq_iff (hs.stored token session hval) hstored).mpr hid
  have hentry := hs.inverse.index_key token session hval
  rw [hkey, hindex] at hentry
  cases hentry

/-- A key that is no stored user's leads nowhere. -/
theorem Inv.index_eq_none (hs : s.Inv) {email : String} {isSub : Bool}
    (hemail : UserSessions.isEmail email = true)
    (hrows : ∀ row ∈ s.users, ¬ (row.email = email ∧ row.isSubAccount = isSub)) :
    s.sessions.index (getTokenKeyByEmailField (some email) isSub) = none := by
  by_contra hne
  obtain ⟨token, hindex⟩ := Option.ne_none_iff_exists'.mp hne
  obtain ⟨session, hval, hkey⟩ := hs.inverse.val_index _ token hindex
  have hstored := hs.stored token session hval
  have hsame := tokenKey_inj (hs.isEmail hstored) hemail hkey
  obtain ⟨row, hrow, _, hrowEmail, hrowSub⟩ := hstored
  exact hrows row hrow ⟨hrowEmail.trans hsame.1, hrowSub.trans hsame.2⟩

theorem getUser_spec {email : String} {isSub : Bool} (h : s.getUser email isSub = some user) :
    user ∈ s.users ∧ user.email = email ∧ user.isSubAccount = isSub := by
  have hfound := List.find?_some h
  simp only [Bool.and_eq_true, decide_eq_true_eq] at hfound
  exact ⟨List.mem_of_find?_eq_some h, hfound⟩

/-- The user of the e-mail, or of the session of the token. -/
theorem verifyUser_spec {args : AuthArgs} {isPasswordVerified : Bool}
    (h : s.verifyUser args isPasswordVerified = some user) :
    (user ∈ s.users ∧ args.email = some user.email ∧ args.isSubAccount = user.isSubAccount) ∨
      args.email = none ∧ ∃ token, args.token = some token ∧
        s.sessions.val token = some user := by
  unfold verifyUser at h
  cases hemail : args.email with
  | none =>
    rw [hemail] at h
    obtain ⟨token, htoken, hval⟩ := Option.bind_eq_some_iff.mp h
    exact .inr ⟨rfl, token, htoken, hval⟩
  | some email =>
    rw [hemail] at h
    dsimp only at h
    split_ifs at h
    obtain ⟨hrow, hrowEmail, hrowSub⟩ := getUser_spec h
    exact .inl ⟨hrow, by rw [hrowEmail], hrowSub.symm⟩

theorem Inv.verifyUser_stored (hs : s.Inv) {args : AuthArgs} {isPasswordVerified : Bool}
    (h : s.verifyUser args isPasswordVerified = some user) : s.Stored user := by
  rcases verifyUser_spec h with ⟨hrow, _⟩ | ⟨_, token, _, hval⟩
  · exact Inv.stored_of_mem hrow
  · exact hs.stored token user hval

theorem Inv.getUserSessionByEmail_eq (hs : s.Inv) (email : Option String) (isSub : Bool) :
    s.getUserSessionByEmail email isSub =
      s.sessions.index (getTokenKeyByEmailField email isSub) := by
  unfold getUserSessionByEmail
  cases hindex : s.sessions.index (getTokenKeyByEmailField email isSub) with
  | none => rfl
  | some token =>
    obtain ⟨session, hval, _⟩ := hs.inverse.val_index _ token hindex
    simp [hval]

/-- The token a session found by its key is kept under. -/
theorem Inv.fits_getD (hs : s.Inv) {email : Option String} {isSub : Bool} {newToken : String}
    (hnew : s.sessions.val newToken = none) :
    s.sessions.Fits ((s.getUserSessionByEmail email isSub).getD newToken)
      (getTokenKeyByEmailField email isSub) := by
  rw [hs.getUserSessionByEmail_eq]
  cases hindex : s.sessions.index (getTokenKeyByEmailField email isSub) with
  | none => exact .inr ⟨hindex, hnew⟩
  | some token => exact .inl hindex

/-- The token a sign-in keeps the session under. -/
theorem Inv.fits_createdToken (hs : s.Inv) {args : AuthArgs} {isPasswordVerified : Bool}
    {newToken : String} (h : s.verifyUser args isPasswordVerified = some user)
    (howns : s.ownsToken args = true) (hnew : s.sessions.val newToken = none) :
    s.sessions.Fits ((args.token.orElse fun _ =>
      s.getUserSessionByEmail args.email args.isSubAccount).getD newToken)
        (Session.tokenKey user) := by
  rcases verifyUser_spec h with ⟨_, hemail, hsub⟩ | ⟨_, token, htoken, hval⟩
  · rw [Session.tokenKey, ← hsub, ← hemail]
    cases htoken : args.token with
    | none => exact hs.fits_getD hnew
    | some token =>
      simp only [ownsToken, agreesWithEmail, hemail, htoken] at howns
      rw [hemail]
      cases hindex : s.sessions.index
          (getTokenKeyByEmailField (some user.email) args.isSubAccount) with
      | none =>
        rw [hindex] at howns
        exact .inr ⟨hindex, by simpa using howns⟩
      | some token' =>
        rw [hindex] at howns
        obtain rfl : token' = token := by simpa using howns
        exact .inl hindex
  · rw [htoken]
    exact .inl (hs.inverse.index_key token user hval)

/-- A user may change the e-mail if no other user has it and no session shows it. -/
theorem Inv.updateUser (hs : s.Inv) (hstored : s.Stored user) {email username : String}
    (hemail : UserSessions.isEmail email = true)
    (hfree : ∀ row ∈ s.users, row.id ≠ user.id →
      ¬ (row.email = email ∧ row.isSubAccount = user.isSubAccount))
    (hsession : email = user.email ∨
      ∀ token session, s.sessions.val token = some session → session.id ≠ user.id)
    (h : s.updateUser user.id user.email email username = some s') :
    s'.Inv ∧ s'.sessions = s.sessions ∧ s'.Stored { user with email, username } := by
  unfold UserSessions.updateUser at h
  split_ifs at h
  obtain rfl := Option.some.inj h
  obtain ⟨row, hrow, hid, hrowEmail, hrowSub⟩ := hstored
  have hofId : ∀ row' ∈ s.users, row'.id = user.id → row' = row := by
    intro row' hrow' hid'
    by_contra hne
    exact (hs.unique.ne hrow' hrow hne).1 (hid'.trans hid.symm)
  refine ⟨⟨?_, ?_, hs.inverse, ?_⟩, rfl, ?_⟩
  · refine List.pairwise_map.mpr (hs.unique.imp_of_mem ?_)
    intro row₁ row₂ h₁ h₂ hne
    by_cases hid₁ : row₁.id = user.id
    · have hid₂ : row₂.id ≠ user.id := fun hid₂ => hne.1 (hid₁.trans hid₂.symm)
      obtain rfl := hofId row₁ h₁ hid₁
      have := hfree row₂ h₂ hid₂
      simp only [hid₁, hid₂, hrowEmail, and_self, if_true, false_and, if_false]
      exact ⟨fun heq => hid₂ heq.symm, fun heq => this ⟨heq.1.symm, heq.2.symm.trans hrowSub⟩⟩
    · by_cases hid₂ : row₂.id = user.id
      · obtain rfl := hofId row₂ h₂ hid₂
        have := hfree row₁ h₁ hid₁
        simp only [hid₁, hid₂, hrowEmail, and_self, if_true, false_and, if_false]
        exact ⟨hid₁, fun heq => this ⟨heq.1, heq.2.trans hrowSub⟩⟩
      · simpa only [hid₁, hid₂, false_and, if_false] using hne
  · intro row' hrow'
    obtain ⟨old, hold, rfl⟩ := List.mem_map.mp hrow'
    split_ifs
    · exact ⟨(hs.rows old hold).1, hemail⟩
    · exact hs.rows old hold
  · intro token session hval
    obtain ⟨old, hold, holdId, holdEmail, holdSub⟩ := hs.stored token session hval
    refine ⟨_, List.mem_map_of_mem hold, ?_⟩
    split_ifs with hsame
    · rcases hsession with heq | hnone
      · exact ⟨holdId, by rw [heq, ← hsame.2, holdEmail], holdSub⟩
      · exact (hnone token session hval (holdId.symm.trans hsame.1)).elim
    · exact ⟨holdId, holdEmail, holdSub⟩
  · refine ⟨_, List.mem_map_of_mem hrow, ?_⟩
    rw [if_pos ⟨hid, hrowEmail⟩]
    exact ⟨hid, rfl, hrowSub⟩

/-- No session of this user and no entry of this key. -/
def NoSession (s : UserSessions) (user : UserRow) : Prop :=
  (∀ token session, s.sessions.val token = some session → session.id ≠ user.id) ∧
    s.sessions.index (Session.tokenKey user) = none

/-- The entry of the user is the one of the token the removal is about. -/
theorem Inv.index_eq_token (hs : s.Inv) {args : AuthArgs} {isPasswordVerified : Bool}
    (h : s.verifyUser args isPasswordVerified = some user)
    (hagrees : s.agreesWithEmail args = true) {token' : String}
    (hindex : s.sessions.index (Session.tokenKey user) = some token') :
    (args.token.orElse fun _ =>
      s.sessions.index (getTokenKeyByEmailField args.email args.isSubAccount)) = some token' := by
  rcases verifyUser_spec h with ⟨_, hemail, hsub⟩ | ⟨_, token, htoken, hval⟩
  · rw [Session.tokenKey, ← hsub] at hindex
    cases htoken : args.token with
    | none =>
      rw [hemail]
      exact hindex
    | some token =>
      simp only [agreesWithEmail, hemail, htoken, hindex] at hagrees
      obtain rfl : token' = token := by simpa using hagrees
      rfl
  · rw [htoken]
    exact (hs.inverse.index_key token user hval).symm.trans hindex

theorem Inv.inverse_removeUserSession (hs : s.Inv) (args : AuthArgs) :
    (s.removeUserSession args).sessions.Inverse := by
  unfold UserSessions.removeUserSession removeSession
  cases args.token.orElse fun _ =>
      s.sessions.index (getTokenKeyByEmailField args.email args.isSubAccount) with
  | none =>
    have hnone := hs.index_undefined
    have hsame := Function.update_eq_self (getTokenKeyByEmailField none false) s.sessions.index
    rw [hnone] at hsame
    simpa only [hsame] using hs.inverse
  | some token =>
    refine hs.inverse.erase ?_ ?_
    · intro session hval
      rw [hval]
      rfl
    · intro token' hindex
      cases hval : s.sessions.val token with
      | none =>
        rw [hval] at hindex
        exact absurd (hs.index_undefined.symm.trans hindex) (Option.some_ne_none _).symm
      | some session =>
        rw [hval] at hindex
        exact (Option.some.inj ((hs.inverse.index_key token session hval).symm.trans hindex)).symm

/-- A removal changes nothing but the entries it drops. -/
theorem val_removeUserSession {args : AuthArgs} {session : Session}
    (h : (s.removeUserSession args).sessions.val token = some session) :
    s.sessions.val token = some session ∧ ¬ (args.token.orElse fun _ =>
      s.sessions.index (getTokenKeyByEmailField args.email args.isSubAccount)) = some token := by
  unfold UserSessions.removeUserSession removeSession at h
  cases htoken : args.token.orElse fun _ =>
      s.sessions.index (getTokenKeyByEmailField args.email args.isSubAccount) with
  | none =>
    rw [htoken] at h
    exact ⟨h, Option.some_ne_none token |>.symm⟩
  | some token' =>
    simp only [htoken, IndexedMap.val_erase] at h
    split_ifs at h with hne
    exact ⟨h, fun heq => hne (Option.some.inj heq).symm⟩

theorem Inv.noSession_removeUserSession (hs : s.Inv) {args : AuthArgs}
    {isPasswordVerified : Bool} (h : s.verifyUser args isPasswordVerified = some user)
    (hagrees : s.agreesWithEmail args = true) : (s.removeUserSession args).NoSession user := by
  have hstored := hs.verifyUser_stored h
  have hsession : ∀ token session,
      (s.removeUserSession args).sessions.val token = some session → session.id ≠ user.id := by
    intro token session hval hid
    obtain ⟨hold, hne⟩ := val_removeUserSession hval
    have hkey := (hs.tokenKey_eq_iff (hs.stored token session hold) hstored).mpr hid
    have hindex := hs.inverse.index_key token session hold
    rw [hkey] at hindex
    exact hne (hs.index_eq_token h hagrees hindex)
  refine ⟨hsession, ?_⟩
  by_contra hne
  obtain ⟨token, hindex⟩ := Option.ne_none_iff_exists'.mp hne
  obtain ⟨session, hval, hkey⟩ := (hs.inverse_removeUserSession args).val_index _ token hindex
  have hold := (val_removeUserSession hval).1
  exact hsession token session hval
    ((hs.tokenKey_eq_iff (hs.stored token session hold) hstored).mp hkey)

/-- A removal, together with the row of the user or without it. -/
theorem Inv.removeUserSession (hs : s.Inv) {args : AuthArgs} {isPasswordVerified : Bool}
    (h : s.verifyUser args isPasswordVerified = some user)
    (hagrees : s.agreesWithEmail args = true) {users : List UserRow}
    (hsublist : users.Sublist s.users)
    (hrest : ∀ row ∈ s.users, row.id ≠ user.id → row ∈ users) :
    ({ s with users }.removeUserSession args).Inv ∧
      s.KeepsUsers ({ s with users }.removeUserSession args) ∧
      ({ s with users }.removeUserSession args).NoSession user := by
  have hsessions : ({ s with users }.removeUserSession args).sessions =
      (s.removeUserSession args).sessions := rfl
  have hrows : ({ s with users }.removeUserSession args).users = users ∧
      ({ s with users }.removeUserSession args).nextId = s.nextId := ⟨rfl, rfl⟩
  have hnone := hs.noSession_removeUserSession h hagrees
  refine ⟨⟨?_, ?_, ?_, ?_⟩, ?_, ?_⟩
  · rw [hrows.1]
    exact hs.unique.sublist hsublist
  · rw [hrows.1, hrows.2]
    exact fun row hrow => hs.rows row (hsublist.subset hrow)
  · rw [hsessions]
    exact hs.inverse_removeUserSession args
  · intro token session hval
    rw [hsessions] at hval
    obtain ⟨row, hrow, hid, hsame⟩ := hs.stored token session (val_removeUserSession hval).1
    refine ⟨row, ?_, hid, hsame⟩
    rw [hrows.1]
    exact hrest row hrow (by rw [hid]; exact hnone.1 token session hval)
  · intro token session session' hval hval'
    rw [hsessions] at hval'
    have hold := (val_removeUserSession hval').1
    rw [hval] at hold
    rw [Option.some.inj hold]
  · unfold NoSession
    rw [hsessions]
    exact hnone

theorem KeepsUsers.refl (s : UserSessions) : s.KeepsUsers s := by
  intro token session session' hval hval'
  rw [hval] at hval'
  rw [Option.some.inj hval']

theorem Inv.signUp (hs : s.Inv) {api : CheckAuthRes} {newToken : String}
    (hnew : s.sessions.val newToken = none)
    (hkeeps : s.keepsIdentity (.signUp api newToken) = true) :
    (s.signUp api newToken).Inv ∧ s.KeepsUsers (s.signUp api newToken) := by
  cases api with
  | user email username =>
    unfold UserSessions.signUp
    dsimp only
    split_ifs with hexists
    · exact ⟨hs, .refl s⟩
    · have hfresh : UserSessions.isEmail email = true ∧
          ∀ row ∈ s.users, ¬ (row.email = email ∧ row.isSubAccount = false) := by
        simpa [keepsIdentity, hexists] using hkeeps
      let user : UserRow := ⟨s.nextId, email, username, false⟩
      let added : UserSessions := { s with users := s.users ++ [user], nextId := s.nextId + 1 }
      have hadded : added.Inv := by
        refine ⟨?_, ?_, hs.inverse, ?_⟩
        · refine List.pairwise_append.mpr ⟨hs.unique, List.pairwise_singleton _ _, ?_⟩
          intro row hrow user' huser'
          rw [List.mem_singleton.mp huser']
          exact ⟨Nat.ne_of_lt (hs.rows row hrow).1, hfresh.2 row hrow⟩
        · intro row hrow
          rcases List.mem_append.mp hrow with hold | hrow
          · exact ⟨Nat.lt_succ_of_lt (hs.rows row hold).1, (hs.rows row hold).2⟩
          · rw [List.mem_singleton.mp hrow]
            exact ⟨Nat.lt_succ_self s.nextId, hfresh.1⟩
        · intro token session hval
          obtain ⟨row, hrow, hsame⟩ := hs.stored token session hval
          exact ⟨row, List.mem_append_left _ hrow, hsame⟩
      have hstored : added.Stored user :=
        Inv.stored_of_mem (List.mem_append_right _ (List.mem_singleton_self user))
      exact hadded.setUserSession hstored (.inr ⟨hs.index_eq_none hfresh.1 hfresh.2, hnew⟩)
  | netError => exact ⟨hs, .refl s⟩
  | error => exact ⟨hs, .refl s⟩

theorem Inv.recoverPassword (hs : s.Inv) {isSubAccount : Bool} {api : CheckAuthRes}
    {newToken : String} (hnew : s.sessions.val newToken = none) :
    (s.recoverPassword isSubAccount api newToken).Inv ∧
      s.KeepsUsers (s.recoverPassword isSubAccount api newToken) := by
  cases api with
  | user email uName =>
    unfold UserSessions.recoverPassword
    dsimp only
    cases huser : s.getUser email isSubAccount with
    | none => exact ⟨hs, .refl s⟩
    | some user =>
      obtain ⟨hrow, rfl, rfl⟩ := getUser_spec huser
      dsimp only
      cases hupdate : s.updateUser user.id user.email user.email
          (generateSubUserName uName user.isSubAccount) with
      | none => exact ⟨hs, .refl s⟩
      | some updated =>
        have hfree : ∀ row ∈ s.users, row.id ≠ user.id →
            ¬ (row.email = user.email ∧ row.isSubAccount = user.isSubAccount) := by
          intro row hrow' hid
          exact (hs.unique.ne hrow' hrow fun heq => hid (by rw [heq])).2
        obtain ⟨hupdated, hsessions, hstored⟩ := hs.updateUser (Inv.stored_of_mem hrow)
          (hs.rows user hrow).2 hfree (.inl rfl) hupdate
        have hfits : s.sessions.Fits
            ((s.getUserSessionByEmail (some user.email) user.isSubAccount).getD newToken)
            (Session.tokenKey user) := hs.fits_getD hnew
        rw [← hsessions] at hfits
        have hset := hupdated.setUserSession hstored hfits
        refine ⟨hset.1, ?_⟩
        rw [KeepsUsers, ← hsessions]
        exact hset.2
  | netError => exact ⟨hs, .refl s⟩
  | error => exact ⟨hs, .refl s⟩

/-- What a user whose session is about to be set may have as e-mail. -/
theorem Inv.mayHaveEmail_spec (hs : s.Inv) (hstored : s.Stored user) {email : String}
    (h : s.mayHaveEmail user email = true) :
    UserSessions.isEmail email = true ∧
      (∀ row ∈ s.users, row.id ≠ user.id →
        ¬ (row.email = email ∧ row.isSubAccount = user.isSubAccount)) ∧
      (email = user.email ∨ s.sessions.index (Session.tokenKey user) = none ∧
        s.sessions.index (getTokenKeyByEmailField (some email) user.isSubAccount) = none) := by
  simp only [mayHaveEmail, Bool.or_eq_true, Bool.and_eq_true, decide_eq_true_eq,
    Option.isNone_iff_eq_none] at h
  rcases h with rfl | ⟨⟨hemail, hindex⟩, hrows⟩
  · refine ⟨hs.isEmail hstored, ?_, .inl rfl⟩
    intro row hrow hid hsame
    exact hid ((hs.same_iff (Inv.stored_of_mem hrow) hstored).mpr hsame)
  · exact ⟨hemail, fun row hrow _ => hrows row hrow,
      .inr ⟨hindex, hs.index_eq_none hemail hrows⟩⟩

/-- The second half of a sign-in. -/
theorem Inv.refresh (hs : s.Inv) {args : AuthArgs}
    {isPasswordVerified failsAfterUpdate : Bool} {email username newToken : String}
    {updated : UserSessions} (h : s.verifyUser args isPasswordVerified = some user)
    (hnew : s.sessions.val newToken = none)
    (howns : (failsAfterUpdate || s.ownsToken args) = true)
    (hmay : s.mayHaveEmail user email = true)
    (hupdate : s.updateUser user.id user.email email username = some updated) :
    ∀ s', s' = (if failsAfterUpdate then updated else updated.setUserSession
      ((args.token.orElse fun _ =>
        s.getUserSessionByEmail args.email args.isSubAccount).getD newToken)
        { user with email, username }) → s'.Inv ∧ s.KeepsUsers s' := by
  have hstored := hs.verifyUser_stored h
  obtain ⟨hemail, hfree, hkey⟩ := hs.mayHaveEmail_spec hstored hmay
  have hsession : email = user.email ∨
      ∀ token session, s.sessions.val token = some session → session.id ≠ user.id :=
    hkey.imp_right fun hnone _ _ => hs.id_ne hstored hnone.1
  obtain ⟨hupdated, hsessions, hstored'⟩ := hs.updateUser hstored hemail hfree hsession hupdate
  intro s' hs'
  split_ifs at hs' with hfails
  · rw [hs', KeepsUsers, hsessions]
    exact ⟨hupdated, KeepsUsers.refl s⟩
  · have hfits : s.sessions.Fits ((args.token.orElse fun _ =>
        s.getUserSessionByEmail args.email args.isSubAccount).getD newToken)
        (getTokenKeyByEmailField (some email) user.isSubAccount) := by
      have hold := hs.fits_createdToken h (by simpa [hfails] using howns) hnew
      rcases hkey with rfl | ⟨hnone, hnone'⟩
      · exact hold
      · rcases hold with hindex | ⟨_, hval⟩
        · exact absurd (hnone.symm.trans hindex) (Option.some_ne_none _).symm
        · exact .inr ⟨hnone', hval⟩
    rw [← hsessions] at hfits
    have hset := hupdated.setUserSession hstored' hfits
    rw [hs']
    refine ⟨hset.1, ?_⟩
    rw [KeepsUsers, ← hsessions]
    exact hset.2

theorem Inv.signIn (hs : s.Inv) {args : AuthArgs} {isPasswordVerified : Bool}
    {api : CheckAuthRes} {newToken : String} {failsAfterUpdate : Bool}
    (hnew : s.sessions.val newToken = none)
    (hkeeps : s.keepsIdentity
      (.signIn args isPasswordVerified api newToken failsAfterUpdate) = true) :
    (s.signIn args isPasswordVerified api newToken failsAfterUpdate).Inv ∧
      s.KeepsUsers (s.signIn args isPasswordVerified api newToken failsAfterUpdate) := by
  unfold UserSessions.signIn
  cases h : s.verifyUser args isPasswordVerified with
  | none => exact ⟨hs, .refl s⟩
  | some user =>
    simp only [keepsIdentity, h, Option.all_some] at hkeeps
    cases api with
    | user email uName =>
      rw [Bool.and_eq_true] at hkeeps
      dsimp only
      cases hupdate : s.updateUser user.id user.email email
          (generateSubUserName uName user.isSubAccount) with
      | none => exact ⟨hs, .refl s⟩
      | some updated => exact hs.refresh h hnew hkeeps.1 hkeeps.2 hupdate _ rfl
    | netError =>
      have hmay : s.mayHaveEmail user user.email = true := by simp [mayHaveEmail]
      dsimp only
      cases hupdate : s.updateUser user.id user.email user.email
          (generateSubUserName user.username user.isSubAccount) with
      | none => exact ⟨hs, .refl s⟩
      | some updated => exact hs.refresh h hnew hkeeps hmay hupdate _ rfl
    | error => exact ⟨hs, .refl s⟩

/-- A verified user has a row, so that `signOut` and `removeUser` come to the removal. -/
theorem Inv.exists_row (hs : s.Inv) {args : AuthArgs} {isPasswordVerified : Bool}
    (h : s.verifyUser args isPasswordVerified = some user) :
    ∃ row ∈ s.users, row.id = user.id ∧ row.email = user.email := by
  obtain ⟨row, hrow, hid, hemail, _⟩ := hs.verifyUser_stored h
  exact ⟨row, hrow, hid, hemail⟩

theorem Inv.signOut (hs : s.Inv) {args : AuthArgs} {isPasswordVerified : Bool}
    (h : s.verifyUser args isPasswordVerified = some user)
    (hagrees : s.agreesWithEmail args = true) :
    (s.signOut args isPasswordVerified).Inv ∧
      s.KeepsUsers (s.signOut args isPasswordVerified) ∧
      (s.signOut args isPasswordVerified).NoSession user := by
  unfold UserSessions.signOut
  rw [h]
  dsimp only
  rw [if_pos (hs.exists_row h)]
  exact hs.removeUserSession h hagrees (.refl s.users) fun _ hrow _ => hrow

theorem Inv.removeUser (hs : s.Inv) {args : AuthArgs} {isPasswordVerified : Bool}
    (h : s.verifyUser args isPasswordVerified = some user)
    (hagrees : s.agreesWithEmail args = true) :
    (s.removeUser args isPasswordVerified).Inv ∧
      s.KeepsUsers (s.removeUser args isPasswordVerified) ∧
      (s.removeUser args isPasswordVerified).NoSession user := by
  unfold UserSessions.removeUser
  rw [h]
  dsimp only
  rw [if_pos (hs.exists_row h)]
  apply hs.removeUserSession h hagrees List.filter_sublist
  intro row hrow hid
  apply List.mem_filter.mpr
  exact ⟨hrow, by simp [hid]⟩

/-- What one call keeps. -/
theorem Inv.step (hs : s.Inv) {call : AuthCall} (hkeeps : s.keepsIdentity call = true)
    (h : s.step call = some s') : s'.Inv ∧ s.KeepsUsers s' := by
  cases call with
  | signUp api newToken =>
    obtain ⟨hnew, heq⟩ := Option.ite_none_right_eq_some.mp h
    obtain rfl := Option.some.inj heq
    exact hs.signUp hnew hkeeps
  | signIn args isPasswordVerified api newToken failsAfterUpdate =>
    obtain ⟨hnew, heq⟩ := Option.ite_none_right_eq_some.mp h
    obtain rfl := Option.some.inj heq
    exact hs.signIn hnew hkeeps
  | recoverPassword isSubAccount api newToken =>
    obtain ⟨hnew, heq⟩ := Option.ite_none_right_eq_some.mp h
    obtain rfl := Option.some.inj heq
    exact hs.recoverPassword hnew
  | signOut args isPasswordVerified =>
    obtain rfl := Option.some.inj h
    cases hverify : s.verifyUser args isPasswordVerified with
    | none =>
      unfold UserSessions.signOut
      rw [hverify]
      exact ⟨hs, .refl s⟩
    | some user =>
      have hagrees : s.agreesWithEmail args = true := by simpa [keepsIdentity, hverify] using hkeeps
      exact ⟨(hs.signOut hverify hagrees).1, (hs.signOut hverify hagrees).2.1⟩
  | removeUser args isPasswordVerified =>
    obtain rfl := Option.some.inj h
    cases hverify : s.verifyUser args isPasswordVerified with
    | none =>
      unfold UserSessions.removeUser
      rw [hverify]
      exact ⟨hs, .refl s⟩
    | some user =>
      have hagrees : s.agreesWithEmail args = true := by simpa [keepsIdentity, hverify] using hkeeps
      exact ⟨(hs.removeUser hverify hagrees).1, (hs.removeUser hverify hagrees).2.1⟩

theorem inv_of_reachable (h : machine.Reachable (keepsIdentity · ·) s) : s.Inv := by
  apply h.invariant
  · rintro s ⟨hunique, hrows, hempty⟩
    refine ⟨hunique, hrows, ?_, ?_⟩
    · rw [hempty]
      exact IndexedMap.inverse_empty
    · intro token session hval
      rw [hempty] at hval
      cases hval
  · intro s call s' hs hkeeps hstep
    exact (hs.step hkeeps hstep).1

/-- In every run of calls about one user each, a session has exactly one entry of the
index and the entry leads to it, a call leaves no token with another user than before,
and after a `signOut` or `removeUser` there is neither token nor entry of the user. -/
theorem sessions_consistent (h : machine.Reachable (keepsIdentity · ·) s) :
    (∀ token session, s.sessions.val token = some session →
      ∀ key, s.sessions.index key = some token ↔ key = Session.tokenKey session) ∧
    (∀ key token, s.sessions.index key = some token →
      ∃ session, s.sessions.val token = some session ∧ Session.tokenKey session = key) ∧
    ∀ call s', s.keepsIdentity call = true → s.step call = some s' →
      (∀ token session session', s.sessions.val token = some session →
        s'.sessions.val token = some session' → session'.id = session.id) ∧
      ∀ args isPasswordVerified user,
        call = .signOut args isPasswordVerified ∨ call = .removeUser args isPasswordVerified →
        s.verifyUser args isPasswordVerified = some user →
        (∀ token session, s'.sessions.val token = some session → session.id ≠ user.id) ∧
          s'.sessions.index (Session.tokenKey user) = none := by
  have hs := inv_of_reachable h
  refine ⟨?_, hs.inverse.val_index, ?_⟩
  · intro token session hval key
    constructor
    · intro hindex
      obtain ⟨session', hval', rfl⟩ := hs.inverse.val_index key token hindex
      rw [hval] at hval'
      rw [Option.some.inj hval']
    · rintro rfl
      exact hs.inverse.index_key token session hval
  · intro call s' hkeeps hstep
    refine ⟨(hs.step hkeeps hstep).2, ?_⟩
    rintro args isPasswordVerified user hcall hverify
    have hagrees : s.agreesWithEmail args = true := by
      rcases hcall with rfl | rfl <;> simpa [keepsIdentity, hverify] using hkeeps
    rcases hcall with rfl | rfl
    · obtain rfl := Option.some.inj hstep
      exact (hs.signOut hverify hagrees).2.2
    · obtain rfl := Option.some.inj hstep
      exact (hs.removeUser hverify hagrees).2.2

namespace TwoUsersWitness

def start : UserSessions := ⟨[], 0, .empty⟩

theorem init_start : machine.init start := by
  refine ⟨.nil, ?_, rfl⟩
  intro user huser
  cases huser

def signUps : List AuthCall :=
  [.signUp (.user "a@host" "a") "t0", .signUp (.user "b@host" "b") "t1"]

def twoUsers : UserSessions :=
  (machine.run Machine.free start signUps).get (by decide)

/-- The e-mail and the password of the first user, the token of the second. -/
def otherToken : AuthCall :=
  .signIn ⟨some "a@host", false, some "t1"⟩ true (.user "a@host" "a") "t2" false

def rebound : UserSessions := (twoUsers.step otherToken).get (by decide)

/-- The token of the second user passes to the first, who now has two sessions for one
entry, and keeps the second after `signOut`. -/
theorem token_of_another_user :
    machine.Reachable Machine.free twoUsers ∧ twoUsers.step otherToken = some rebound ∧
      (twoUsers.sessions.val "t1").map UserRow.id = some 1 ∧
      (rebound.sessions.val "t1").map UserRow.id = some 0 ∧
      (rebound.sessions.val "t0").map UserRow.id = some 0 ∧
      rebound.sessions.index "a@host" = some "t1" ∧
      ((rebound.signOut ⟨some "a@host", false, none⟩ true).sessions.val "t0").map UserRow.id =
        some 0 := by
  have hstart : machine.Reachable Machine.free start := .init init_start
  exact ⟨hstart.run (Option.some_get _).symm, (Option.some_get _).symm, by decide, by decide,
    by decide, by decide, by decide⟩

/-- The first user signs in again with the own token, signs out and comes back with
another e-mail at the API. -/
def separate : List AuthCall :=
  [.signUp (.user "a@host" "a") "t0", .signUp (.user "b@host" "b") "t1",
    .signIn ⟨some "a@host", false, some "t0"⟩ true .netError "t2" false,
    .recoverPassword false (.user "b@host" "b") "t2",
    .signOut ⟨some "a@host", false, none⟩ true,
    .signIn ⟨some "a@host", false, none⟩ true (.user "c@host" "c") "t2" false]

def separated : UserSessions :=
  (machine.run (keepsIdentity · ·) start separate).get (by decide)

theorem reachable_separated : machine.Reachable (keepsIdentity · ·) separated :=
  (Machine.Reachable.init init_start).run (Option.some_get _).symm

def renamed : UserRow := ⟨0, "c@host", "c", false⟩

theorem sessions_consistent_of_separated :
    separated.sessions.val "t2" = some renamed ∧
      (∀ key, separated.sessions.index key = some "t2" ↔ key = Session.tokenKey renamed) ∧
      (∀ token session,
        (separated.removeUser ⟨none, false, some "t2"⟩ true).sessions.val token = some session →
          session.id ≠ renamed.id) ∧
      (separated.removeUser ⟨none, false, some "t2"⟩ true).sessions.index "c@host" = none := by
  have hval : separated.sessions.val "t2" = some renamed := by decide
  obtain ⟨hsession, _, hcall⟩ := sessions_consistent reachable_separated
  have hremoved := (hcall (.removeUser ⟨none, false, some "t2"⟩ true) _ (by decide) rfl).2
    ⟨none, false, some "t2"⟩ true renamed (.inr rfl) hval
  exact ⟨hval, hsession "t2" renamed hval, hremoved.1, hremoved.2⟩

end TwoUsersWitness

end UserSessions

end ReportsFramework
