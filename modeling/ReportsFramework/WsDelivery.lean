/-
Whom the messages of the WebSocket transport reach.  A message for one user is sent only to
sockets that have signed in as this user, and a `send` reaches every socket that stays signed
in as an active user it is for, once, whatever else happens on the way.
-/
import Mathlib.Data.List.Sort
import ReportsFramework.WsTransport

namespace ReportsFramework.WsSys

variable {s s' : WsSys} {a : WsAction} {c sid sid' : ℕ} {user fresh : WsUser}

@[simp, grind =] theorem sends_goTo (s : WsSys) (c c' : ℕ) (p : SendPhase) :
    (s.goTo c p).sends c' = if c' = c then { s.sends c with phase := p } else s.sends c' := by
  simp [goTo, Function.update_apply]

/-- The user that is looked up has the id of the one that has signed in. -/
theorem id_findUser (auth : WsUser) (freshUsersDate : List WsUser) :
    (findUser auth freshUsersDate).id = auth.id := by
  unfold findUser
  cases hfound : freshUsersDate.find? fun user => auth.id = user.id && auth.email = user.email with
  | none => rfl
  | some user =>
      have hsame := List.find?_some hfound
      simp only [Bool.and_eq_true, decide_eq_true_eq] at hsame
      exact hsame.1.symm

/-- What a call has sent. -/
def messages (s : WsSys) (c : ℕ) : List WsMessage := s.sent.filter (·.call = c)

/-- What an action does to a call of `send`. -/
inductive SendMoves (s : WsSys) (a : WsAction) (s' : WsSys) (c : ℕ) : Prop
  | same (hsend : s'.sends c = s.sends c) (hmessages : s'.messages c = s.messages c)
  | start (target : WsTarget) (hc : c = s.nextSend) (hnextSend : c < s'.nextSend)
      (hsend : s'.sends c = ⟨target, s.getFreshUsersDataFromSessions, .looping none⟩)
      (hmessages : s'.messages c = s.messages c)
  | look (last : Option ℕ) (sid : ℕ) (hphase : s.phase c = .looping last)
      (hnext : s.nextSocket last = some sid)
      (hsend : s'.sends c = { s.sends c with phase := s.look c sid })
      (hmessages : s'.messages c = s.messages c)
  | finish (last : Option ℕ) (hphase : s.phase c = .looping last)
      (hnext : s.nextSocket last = none)
      (hsend : s'.sends c = { s.sends c with phase := .done })
      (hmessages : s'.messages c = s.messages c)
  | handle (sid : ℕ) (user : WsUser) (isNotEmitted : Bool) (ha : a = .handle c isNotEmitted)
      (hphase : s.phase c = .handling sid user)
      (hsend : s'.sends c = { s.sends c with phase := .looping (some sid) })
      (hmessages : s'.messages c =
        if isNotEmitted then s.messages c else s.messages c ++ [⟨c, sid, user⟩])

theorem sendMoves_of_step (h : s.step a = some s') (c : ℕ) : s.SendMoves a s' c := by
  cases a with
  | send target =>
      simp only [step] at h
      split_ifs at h
      · obtain rfl := Option.some.inj h
        exact .same rfl rfl
      obtain rfl := Option.some.inj h
      by_cases hc : c = s.nextSend
      · subst hc
        exact .start target rfl (Nat.lt_succ_self _) (by simp) rfl
      · exact .same (by simp [hc]) rfl
  | next d =>
      simp only [step] at h
      rcases hphase : s.phase d with last | ⟨sid, user⟩ | _ <;> simp only [hphase] at h
      · by_cases hc : c = d
        · subst hc
          cases hnext : s.nextSocket last with
          | none =>
              simp only [hnext] at h
              obtain rfl := Option.some.inj h
              exact .finish last hphase hnext (by simp) rfl
          | some sid =>
              simp only [hnext] at h
              obtain rfl := Option.some.inj h
              exact .look last sid hphase hnext (by simp) rfl
        · cases hnext : s.nextSocket last with
          | none =>
              simp only [hnext] at h
              obtain rfl := Option.some.inj h
              exact .same (by simp [hc]) rfl
          | some sid =>
              simp only [hnext] at h
              obtain rfl := Option.some.inj h
              exact .same (by simp [hc]) rfl
      · cases h
      · cases h
  | handle d isNotEmitted =>
      simp only [step] at h
      rcases hphase : s.phase d with last | ⟨sid, user⟩ | _ <;> simp only [hphase] at h
      · cases h
      · obtain rfl := Option.some.inj h
        by_cases hc : c = d
        · subst hc
          refine .handle sid user isNotEmitted rfl hphase (by simp) ?_
          cases isNotEmitted <;> simp [messages]
        · refine .same (by simp [hc]) ?_
          cases isNotEmitted <;> simp [messages, Ne.symm hc]
      · cases h
  | signIn sid user =>
      simp only [step] at h
      split_ifs at h
      obtain rfl := Option.some.inj h
      exact .same rfl rfl
  | _ =>
      obtain rfl := Option.some.inj h
      exact .same rfl rfl

/-- A call keeps what it was called with. -/
theorem SendMoves.kept (h : s.SendMoves a s' c) (hc : c < s.nextSend) :
    (s'.sends c).target = (s.sends c).target ∧
      (s'.sends c).freshUsersDate = (s.sends c).freshUsersDate := by
  cases h with
  | start target hstart => omega
  | same hsend => simp [hsend]
  | look last sid hphase hnext hsend => simp [hsend]
  | finish last hphase hnext hsend => simp [hsend]
  | handle sid user isNotEmitted ha hphase hsend => simp [hsend]

/-- A socket has signed in as the user with an id. -/
def HasSignedInAs (s : WsSys) (sid : ℕ) (id : ℤ) : Prop :=
  ∃ user, (sid, user) ∈ s.signedIn ∧ user.id = id

theorem signedIn_step (h : s.step a = some s') : s.signedIn ⊆ s'.signedIn := by
  cases a <;> simp only [step] at h <;> grind [goTo]

theorem HasSignedInAs.step {id : ℤ} (hid : s.HasSignedInAs sid id) (h : s.step a = some s') :
    s'.HasSignedInAs sid id := by
  obtain ⟨user, hmem, hid⟩ := hid
  exact ⟨user, signedIn_step h hmem, hid⟩

theorem nextSend_step (h : s.step a = some s') : s.nextSend ≤ s'.nextSend := by
  cases a <;> simp only [step] at h <;> grind [goTo]

theorem getAuth_mem (h : s.getAuth sid = some user) : (sid, user) ∈ s.auth := by
  obtain ⟨before, after, hauth, _⟩ := List.lookup_eq_some_iff.mp h
  simp [hauth]

theorem mem_setAuth {auth : List (ℕ × WsUser)} {entry : ℕ × WsUser}
    (h : entry ∈ setAuth auth sid user) : entry = (sid, user) ∨ entry ∈ auth := by
  unfold setAuth at h
  split_ifs at h
  · obtain ⟨old, hold, rfl⟩ := List.mem_map.mp h
    split_ifs
    · exact .inl rfl
    · exact .inr hold
  · rcases List.mem_append.mp h with hold | hnew
    · exact .inr hold
    · exact .inl (List.mem_singleton.mp hnew)

/-- What holds of the maps: the users are those that have signed in, and the sockets are in
the order of their ids. -/
structure MapInv (s : WsSys) : Prop where
  auth : s.auth ⊆ s.signedIn
  sorted : s.sockets.Pairwise (· < ·)
  bounded : ∀ sid ∈ s.sockets, sid < s.nextSid

theorem MapInv.step (hs : s.MapInv) (h : s.step a = some s') : s'.MapInv := by
  cases a with
  | connect =>
      obtain rfl := Option.some.inj h
      refine ⟨hs.auth, ?_, ?_⟩
      · apply List.pairwise_append.mpr
        refine ⟨hs.sorted, List.pairwise_singleton _ _, ?_⟩
        intro sid hsid new hnew
        rw [List.mem_singleton.mp hnew]
        exact hs.bounded sid hsid
      · intro sid hsid
        rcases List.mem_append.mp hsid with hold | hnew
        · exact Nat.lt_succ_of_lt (hs.bounded sid hold)
        · rw [List.mem_singleton.mp hnew]
          exact Nat.lt_succ_self _
  | close sid =>
      obtain rfl := Option.some.inj h
      refine ⟨fun _ hmem => hs.auth (List.mem_filter.mp hmem).1, hs.sorted.filter _, ?_⟩
      exact fun sid hsid => hs.bounded sid (List.mem_filter.mp hsid).1
  | signIn sid user =>
      simp only [WsSys.step] at h
      split_ifs at h
      obtain rfl := Option.some.inj h
      refine ⟨?_, hs.sorted, hs.bounded⟩
      intro entry hentry
      rcases mem_setAuth hentry with rfl | hold
      · exact List.mem_append_right _ (List.mem_singleton_self _)
      · exact List.mem_append_left _ (hs.auth hold)
  | send target =>
      simp only [WsSys.step] at h
      split_ifs at h <;> obtain rfl := Option.some.inj h <;> exact ⟨hs.auth, hs.sorted, hs.bounded⟩
  | next d =>
      simp only [WsSys.step] at h
      grind [MapInv, goTo]
  | handle d isNotEmitted =>
      simp only [WsSys.step] at h
      grind [MapInv, goTo]
  | _ =>
      obtain rfl := Option.some.inj h
      exact ⟨hs.auth, hs.sorted, hs.bounded⟩

/-- What holds of a call: it has sent its messages to one socket after the other, behind
none that it looks at, each to a socket that has signed in as a user it is for. -/
structure CallInv (s : WsSys) (c : ℕ) : Prop where
  called : s.nextSend ≤ c → s.phase c = .done ∧ s.messages c = []
  sorted : ((s.messages c).map WsMessage.sid).Pairwise (· < ·)
  looping : ∀ last, s.phase c = .looping last → ∀ m ∈ s.messages c, last.any (m.sid ≤ ·) = true
  handling : ∀ sid user, s.phase c = .handling sid user →
    (∀ m ∈ s.messages c, m.sid < sid) ∧ (s.sends c).target.isNotTargetUser user = false ∧
      s.HasSignedInAs sid user.id
  sent : ∀ m ∈ s.messages c, (s.sends c).target.isNotTargetUser m.user = false ∧
    s.HasSignedInAs m.sid m.user.id

/-- A socket that `send` awaits its handler for. -/
theorem look_handling (h : s.look c sid = .handling sid' user) :
    sid' = sid ∧ ∃ auth, s.getAuth sid = some auth ∧
      user = findUser auth (s.sends c).freshUsersDate ∧
      (s.sends c).target.isNotTargetUser user = false := by
  unfold look at h
  split at h
  · cases h
  · rename_i auth hauth
    simp only at h
    split_ifs at h with hskip
    cases h
    refine ⟨rfl, auth, hauth, rfl, ?_⟩
    simp only [Bool.or_eq_true, not_or] at hskip
    exact Bool.eq_false_iff.mpr hskip.2

theorem look_looping {last : Option ℕ} (h : s.look c sid = .looping last) : last = some sid := by
  unfold look at h
  split at h
  · cases h
    rfl
  · simp only at h
    split_ifs at h
    cases h
    rfl

theorem lt_nextSocket {last : Option ℕ} (h : s.nextSocket last = some sid) :
    last.all (· < sid) = true ∧ sid ∈ s.sockets := by
  have hfound := List.find?_some h
  exact ⟨hfound, List.mem_of_find?_eq_some h⟩

/-- What was sent stays as it was. -/
theorem CallInv.sent_step (hs : s.CallInv c) (h : s.step a = some s')
    (htarget : (s'.sends c).target = (s.sends c).target) {m : WsMessage}
    (hm : m ∈ s.messages c) :
    (s'.sends c).target.isNotTargetUser m.user = false ∧ s'.HasSignedInAs m.sid m.user.id := by
  obtain ⟨hfor, hsigned⟩ := hs.sent m hm
  rw [htarget]
  exact ⟨hfor, hsigned.step h⟩

/-- A call that has come to the loop has been made. -/
theorem CallInv.called_step (hs : s.CallInv c) (h : s.step a = some s')
    (hphase : s.phase c ≠ .done) (hle : s'.nextSend ≤ c) :
    s'.phase c = .done ∧ s'.messages c = [] :=
  absurd (hs.called ((nextSend_step h).trans hle)).1 hphase

theorem CallInv.same (hs : s.CallInv c) (h : s.step a = some s')
    (hsend : s'.sends c = s.sends c) (hmessages : s'.messages c = s.messages c) :
    s'.CallInv c := by
  have hphase' : s'.phase c = s.phase c := by rw [phase, phase, hsend]
  constructor
  · intro hc
    rw [hphase', hmessages]
    exact hs.called ((nextSend_step h).trans hc)
  · rw [hmessages]
    exact hs.sorted
  · rw [hphase', hmessages]
    exact hs.looping
  · intro sid user hphase
    rw [hphase'] at hphase
    rw [hmessages, hsend]
    obtain ⟨hbehind, htarget, hsigned⟩ := hs.handling sid user hphase
    exact ⟨hbehind, htarget, hsigned.step h⟩
  · intro m hm
    rw [hmessages] at hm
    exact hs.sent_step h (by rw [hsend]) hm

/-- A new call has sent nothing. -/
theorem CallInv.start (hphase : s'.phase c = .looping none) (hlt : c < s'.nextSend)
    (hnil : s'.messages c = []) : s'.CallInv c := by
  constructor
  · intro hle
    omega
  · rw [hnil]
    exact .nil
  · rw [hnil]
    exact fun _ _ _ hm => absurd hm List.not_mem_nil
  · intro sid user hhandling
    cases hphase.symm.trans hhandling
  · rw [hnil]
    exact fun _ hm => absurd hm List.not_mem_nil

/-- The loop looks at a socket that is behind all that it has sent to. -/
theorem CallInv.look (hs : s.CallInv c) (hmaps : s.MapInv) (h : s.step a = some s')
    {last : Option ℕ} (hphase : s.phase c = .looping last) (hnext : s.nextSocket last = some sid)
    (hsend : s'.sends c = { s.sends c with phase := s.look c sid })
    (hmessages : s'.messages c = s.messages c) : s'.CallInv c := by
  obtain ⟨hlast, _⟩ := lt_nextSocket hnext
  have hbehind : ∀ m ∈ s.messages c, m.sid < sid := by
    intro m hm
    have hle := hs.looping last hphase m hm
    cases last with
    | none => cases hle
    | some last =>
        simp only [Option.any_some, Option.all_some, decide_eq_true_eq] at hle hlast
        omega
  have hphase' : s'.phase c = s.look c sid := by rw [phase, hsend]
  constructor
  · exact hs.called_step h (by simp [hphase])
  · rw [hmessages]
    exact hs.sorted
  · intro last' hlooping
    rw [hmessages]
    intro m hm
    have hlt := hbehind m hm
    rw [look_looping (hphase'.symm.trans hlooping)]
    simpa using Nat.le_of_lt hlt
  · intro sid' user hhandling
    obtain ⟨rfl, auth, hauth, rfl, htarget⟩ := look_handling (hphase'.symm.trans hhandling)
    rw [hmessages, hsend]
    refine ⟨hbehind, htarget, ?_⟩
    rw [id_findUser]
    exact HasSignedInAs.step ⟨auth, hmaps.auth (getAuth_mem hauth), rfl⟩ h
  · intro m hm
    rw [hmessages] at hm
    exact hs.sent_step h (by rw [hsend]) hm

theorem CallInv.finish (hs : s.CallInv c) (h : s.step a = some s') {last : Option ℕ}
    (hphase : s.phase c = .looping last) (hsend : s'.sends c = { s.sends c with phase := .done })
    (hmessages : s'.messages c = s.messages c) : s'.CallInv c := by
  have hphase' : s'.phase c = .done := by rw [phase, hsend]
  constructor
  · exact hs.called_step h (by simp [hphase])
  · rw [hmessages]
    exact hs.sorted
  · intro last' hlooping
    cases hphase'.symm.trans hlooping
  · intro sid user hhandling
    cases hphase'.symm.trans hhandling
  · intro m hm
    rw [hmessages] at hm
    exact hs.sent_step h (by rw [hsend]) hm

/-- The handler of a socket is done, and its message is the last one. -/
theorem CallInv.handle (hs : s.CallInv c) (h : s.step a = some s') {isNotEmitted : Bool}
    (hphase : s.phase c = .handling sid user)
    (hsend : s'.sends c = { s.sends c with phase := .looping (some sid) })
    (hmessages : s'.messages c =
      if isNotEmitted then s.messages c else s.messages c ++ [⟨c, sid, user⟩]) :
    s'.CallInv c := by
  obtain ⟨hbehind, htarget, hsigned⟩ := hs.handling sid user hphase
  have hphase' : s'.phase c = .looping (some sid) := by rw [phase, hsend]
  have hnew {m : WsMessage} (hm : m ∈ s'.messages c) :
      m ∈ s.messages c ∨ m = ⟨c, sid, user⟩ := by
    rw [hmessages] at hm
    split_ifs at hm
    · exact .inl hm
    · exact (List.mem_append.mp hm).imp_right List.mem_singleton.mp
  constructor
  · exact hs.called_step h (by simp [hphase])
  · rw [hmessages]
    split_ifs
    · exact hs.sorted
    · rw [List.map_append]
      apply List.pairwise_append.mpr
      refine ⟨hs.sorted, List.pairwise_singleton _ _, ?_⟩
      intro sid' hsid' new hnew
      obtain ⟨m, hm, rfl⟩ := List.mem_map.mp hsid'
      rw [List.map_singleton, List.mem_singleton] at hnew
      rw [hnew]
      exact hbehind m hm
  · intro last hlooping m hm
    cases hphase'.symm.trans hlooping
    rcases hnew hm with hold | rfl
    · simpa using Nat.le_of_lt (hbehind m hold)
    · simp
  · intro sid' user' hhandling
    cases hphase'.symm.trans hhandling
  · intro m hm
    rcases hnew hm with hold | rfl
    · exact hs.sent_step h (by rw [hsend]) hold
    · rw [hsend]
      exact ⟨htarget, hsigned.step h⟩

theorem CallInv.step (hs : s.CallInv c) (hmaps : s.MapInv) (h : s.step a = some s') :
    s'.CallInv c := by
  cases sendMoves_of_step h c with
  | same hsend hmessages => exact hs.same h hsend hmessages
  | start target hc hlt hsend hmessages =>
      apply CallInv.start (by rw [phase, hsend]) hlt
      exact hmessages.trans (hs.called (by omega)).2
  | look last sid hphase hnext hsend hmessages =>
      exact hs.look hmaps h hphase hnext hsend hmessages
  | finish last hphase hnext hsend hmessages => exact hs.finish h hphase hsend hmessages
  | handle sid user isNotEmitted ha hphase hsend hmessages =>
      exact hs.handle h hphase hsend hmessages

theorem inv_of_reachable (hs : machine.Reachable Machine.free s) :
    s.MapInv ∧ ∀ c, s.CallInv c := by
  apply hs.invariant (I := fun s => MapInv s ∧ ∀ c, CallInv s c)
  · rintro s ⟨hsockets, hauth, hsignedIn, hsent, hdone⟩
    have hnil : ∀ c, s.messages c = [] := by
      intro c
      simp [messages, hsent]
    refine ⟨⟨by simp [hauth], by simp [hsockets], by simp [hsockets]⟩, ?_⟩
    intro c
    refine ⟨fun _ => ⟨hdone c, hnil c⟩, by simp [hnil], by simp [hnil], ?_, by simp [hnil]⟩
    intro sid user hphase
    cases (hdone c).symm.trans hphase
  · rintro s a s' ⟨hmaps, hcalls⟩ _ h
    exact ⟨hmaps.step h, fun c => (hcalls c).step hmaps h⟩

/-- Whatever the sockets do while a handler is awaited, a message for a user is sent only to
sockets that have signed in as this user, and no call sends two messages to one socket. -/
theorem sent_to_target (hs : machine.Reachable Machine.free s) (c : ℕ) :
    ((s.messages c).map WsMessage.sid).Nodup ∧
      ∀ m ∈ s.messages c, s.HasSignedInAs m.sid m.user.id ∧
        ∀ id, (s.sends c).target = .toOne id → id = some m.user.id := by
  have hcall := (inv_of_reachable hs).2 c
  refine ⟨hcall.sorted.imp Nat.ne_of_lt, ?_⟩
  intro m hm
  obtain ⟨htarget, hsigned⟩ := hcall.sent m hm
  refine ⟨hsigned, ?_⟩
  intro id hid
  rw [hid] at htarget
  cases id with
  | none => cases htarget
  | some id =>
      have hsame : m.user.id = id := by simpa [WsTarget.isNotTargetUser] using htarget
      rw [hsame]

/-- A call awaits the handler of a socket. -/
def isAt (s : WsSys) (c sid : ℕ) : Bool :=
  match s.phase c with
  | .handling sid' _ => sid' = sid
  | _ => false

/-- A socket remains connected and signed in as a user, and its handler does not turn it
down. -/
def stays (c sid : ℕ) (user : WsUser) (s : WsSys) (a : WsAction) : Prop :=
  sid ∈ s.sockets ∧ s.getAuth sid = some user ∧ (s.isAt c sid = true → a ≠ .handle c true)

instance (c sid : ℕ) (user : WsUser) (s : WsSys) (a : WsAction) :
    Decidable (stays c sid user s a) :=
  inferInstanceAs (Decidable (_ ∧ _ ∧ _))

/-- The walk has not come to a socket yet, is at it, or has sent it its message. -/
structure Reaching (c sid : ℕ) (user fresh : WsUser) (s : WsSys) : Prop where
  maps : s.MapInv
  called : c < s.nextSend
  found : findUser user (s.sends c).freshUsersDate = fresh
  target : (s.sends c).target.isNotTargetUser fresh = false
  reaching : (∃ last, s.phase c = .looping last ∧ last.all (· < sid) = true) ∨
    (∃ sid' user', s.phase c = .handling sid' user' ∧ sid' < sid) ∨
    s.phase c = .handling sid fresh ∨ ⟨c, sid, fresh⟩ ∈ s.messages c

/-- The walk comes to a socket that stays before it goes behind it. -/
theorem nextSocket_le (hmaps : s.MapInv) {last : Option ℕ} (hsid : sid ∈ s.sockets)
    (hlast : last.all (· < sid) = true) :
    ∃ sid', s.nextSocket last = some sid' ∧ sid' ≤ sid := by
  have hsome : (s.nextSocket last).isSome = true :=
    List.find?_isSome.mpr ⟨sid, hsid, hlast⟩
  obtain ⟨sid', hnext⟩ := Option.isSome_iff_exists.mp hsome
  refine ⟨sid', hnext, ?_⟩
  obtain ⟨_, before, after, hsockets, hbefore⟩ := List.find?_eq_some_iff_append.mp hnext
  by_contra hlt
  rw [hsockets] at hsid
  rcases List.mem_append.mp hsid with hmem | hmem
  · have hnot := hbefore sid hmem
    simp only [hlast] at hnot
    cases hnot
  · have hsorted := hmaps.sorted
    rw [hsockets] at hsorted
    rcases List.mem_cons.mp hmem with rfl | hmem
    · exact hlt (Nat.le_refl _)
    · have hle := (List.pairwise_cons.mp (List.pairwise_append.mp hsorted).2.1).1 sid hmem
      omega

/-- The walk goes on to a socket up to the one that stays. -/
theorem Reaching.look (hs : s.Reaching c sid user fresh) (hactive : fresh.active = true)
    (hsid : sid ∈ s.sockets) (hauth : s.getAuth sid = some user) {last : Option ℕ}
    (hlast : last.all (· < sid) = true) (hnext : s.nextSocket last = some sid') :
    (∃ last, s.look c sid' = .looping last ∧ last.all (· < sid) = true) ∨
      (∃ sid₁ user₁, s.look c sid' = .handling sid₁ user₁ ∧ sid₁ < sid) ∨
        s.look c sid' = .handling sid fresh := by
  obtain ⟨sid₁, hnext', hle⟩ := nextSocket_le hs.maps hsid hlast
  obtain rfl := Option.some.inj (hnext.symm.trans hnext')
  rcases Nat.lt_or_eq_of_le hle with hlt | rfl
  · cases hlook : s.look c sid' with
    | looping last' =>
        left
        refine ⟨last', rfl, ?_⟩
        rw [look_looping hlook]
        simpa using hlt
    | handling sid₂ user' =>
        right
        left
        obtain ⟨rfl, _⟩ := look_handling hlook
        exact ⟨sid₂, user', rfl, hlt⟩
    | done =>
        unfold WsSys.look at hlook
        split at hlook
        · cases hlook
        · simp only at hlook
          split_ifs at hlook
  · right
    right
    simp [WsSys.look, hauth, hs.found, hactive, hs.target]

theorem Reaching.step (hs : s.Reaching c sid user fresh) (hactive : fresh.active = true)
    (hstays : stays c sid user s a) (h : s.step a = some s') :
    s'.Reaching c sid user fresh := by
  obtain ⟨hsid, hauth, hemitted⟩ := hstays
  have hmaps := hs.maps.step h
  have hcalled := Nat.lt_of_lt_of_le hs.called (nextSend_step h)
  have hreaching := hs.reaching
  have hkept := (sendMoves_of_step h c).kept hs.called
  have hfound : findUser user (s'.sends c).freshUsersDate = fresh := by
    rw [hkept.2]
    exact hs.found
  have htarget : (s'.sends c).target.isNotTargetUser fresh = false := by
    rw [hkept.1]
    exact hs.target
  refine ⟨hmaps, hcalled, hfound, htarget, ?_⟩
  cases sendMoves_of_step h c with
  | same hsend hmessages =>
      have hphase : s'.phase c = s.phase c := by rw [phase, phase, hsend]
      rw [hphase, hmessages]
      exact hreaching
  | start target hc =>
      have hlt := hs.called
      omega
  | look last sid' hphase hnext hsend hmessages =>
      have hphase' : s'.phase c = s.look c sid' := by rw [phase, hsend]
      rw [hphase', hmessages]
      rcases hreaching with ⟨last', hlooping, hlast⟩ | ⟨_, _, hhandling, _⟩ | hhandling | hsent
      · cases hphase.symm.trans hlooping
        rcases hs.look hactive hsid hauth hlast hnext with hbefore | hbefore | hat
        · exact .inl hbefore
        · exact .inr (.inl hbefore)
        · exact .inr (.inr (.inl hat))
      · cases hphase.symm.trans hhandling
      · cases hphase.symm.trans hhandling
      · exact .inr (.inr (.inr hsent))
  | finish last hphase hnext hsend hmessages =>
      rw [hmessages]
      rcases hreaching with ⟨last', hlooping, hlast⟩ | ⟨_, _, hhandling, _⟩ | hhandling | hsent
      · cases hphase.symm.trans hlooping
        obtain ⟨_, hnext', _⟩ := nextSocket_le hs.maps hsid hlast
        cases hnext.symm.trans hnext'
      · cases hphase.symm.trans hhandling
      · cases hphase.symm.trans hhandling
      · exact .inr (.inr (.inr hsent))
  | handle sid' user' isNotEmitted ha hphase hsend hmessages =>
      have hphase' : s'.phase c = .looping (some sid') := by rw [phase, hsend]
      rw [hphase', hmessages]
      rcases hreaching with ⟨_, hlooping, _⟩ | ⟨_, _, hhandling, hlt⟩ | hhandling | hsent
      · cases hphase.symm.trans hlooping
      · cases hphase.symm.trans hhandling
        exact .inl ⟨some sid', rfl, by simpa using hlt⟩
      · cases hphase.symm.trans hhandling
        -- the socket is the one that stays
        have hemitted' : isNotEmitted = false := by
          rw [ha] at hemitted
          cases isNotEmitted with
          | false => rfl
          | true => exact absurd rfl (hemitted (by simp [isAt, hphase]))
        rw [hemitted']
        exact .inr (.inr (.inr (by simp)))
      · cases isNotEmitted with
        | false => exact .inr (.inr (.inr (by simp [hsent])))
        | true => exact .inr (.inr (.inr hsent))

/-- A `send` that is through has sent a message to every socket that has stayed connected
and signed in as an active user it is for, since it was called, and that its handler did not
turn down. -/
theorem send_reaches (hs : machine.Reachable Machine.free s) {target : WsTarget}
    (hserver : s.active = true) (hauth : s.getAuth sid = some user)
    (hactive : (findUser user s.getFreshUsersDataFromSessions).active = true)
    (htarget : target.isNotTargetUser (findUser user s.getFreshUsersDataFromSessions) = false)
    (hsend : s.step (.send target) = some s') {actions : List WsAction} {s'' : WsSys}
    (hrun : machine.run (stays s.nextSend sid user) s' actions = some s'')
    (hdone : s''.phase s.nextSend = .done) :
    ⟨s.nextSend, sid, findUser user s.getFreshUsersDataFromSessions⟩ ∈ s''.sent := by
  have hfull : s.auth.isEmpty = false := by
    rw [List.isEmpty_eq_false_iff]
    exact List.ne_nil_of_mem (getAuth_mem hauth)
  have hstart :
      s'.Reaching s.nextSend sid user (findUser user s.getFreshUsersDataFromSessions) := by
    have hmaps := (inv_of_reachable hs).1.step hsend
    simp only [step, hserver, hfull, Bool.not_true, Bool.or_self, Bool.false_eq_true, if_false,
      Option.some.injEq] at hsend
    subst hsend
    refine ⟨hmaps, Nat.lt_succ_self _, by simp, by simpa using htarget, .inl ⟨none, ?_, rfl⟩⟩
    simp [phase]
  have hend : s''.Reaching s.nextSend sid user (findUser user s.getFreshUsersDataFromSessions) := by
    apply Machine.run_invariant _ hstart hrun
    exact fun _ _ _ hreaching hstays h => hreaching.step hactive hstays h
  rcases hend.reaching with ⟨last, hlooping, _⟩ | ⟨_, _, hhandling, _⟩ | hhandling | hsent
  · cases hdone.symm.trans hlooping
  · cases hdone.symm.trans hhandling
  · cases hdone.symm.trans hhandling
  · exact (List.mem_filter.mp hsent).1

namespace TwoUsersWitness

def started : WsSys where
  active := false
  sockets := []
  nextSid := 0
  auth := []
  sessions := []
  sends _ := ⟨.all, [], .done⟩
  nextSend := 0
  signedIn := []
  sent := []

def seven : WsUser := ⟨7, "seven@mail", true⟩

def eight : WsUser := ⟨8, "eight@mail", true⟩

/-- Two sockets have signed in as two users. -/
def ready : WsSys :=
  (machine.run Machine.free started
    [.connect, .connect, .signIn 0 seven, .signIn 1 eight, .setSessions [seven, eight]]).get
      (by decide)

theorem init_started : machine.init started := ⟨rfl, rfl, rfl, rfl, fun _ => rfl⟩

theorem reachable_ready : machine.Reachable Machine.free ready :=
  (Machine.Reachable.init init_started).run (Option.some_get _).symm

/-- The first socket signs in as the second user while the handler is awaited. -/
def swapped : WsSys :=
  (machine.run Machine.free ready
    [.send (.toOne (some 7)), .next 0, .signIn 0 eight, .handle 0 false, .next 0, .next 0]).get
      (by decide)

theorem sent_to_target_of_swapped :
    (swapped.messages 0 = [⟨0, 0, seven⟩] ∧ swapped.getAuth 0 = some eight) ∧
      ((swapped.messages 0).map WsMessage.sid).Nodup ∧
        ∀ m ∈ swapped.messages 0, swapped.HasSignedInAs m.sid m.user.id ∧
          ∀ id, (swapped.sends 0).target = .toOne id → id = some m.user.id :=
  ⟨by decide, sent_to_target (reachable_ready.run (Option.some_get _).symm) 0⟩

def called : WsSys := (ready.step (.send (.toOne (some 7)))).get (by decide)

/-- The second socket is closed, and a third one connects and signs in. -/
def through : WsSys :=
  (machine.run (stays 0 0 seven) called
    [.next 0, .close 1, .connect, .handle 0 false, .signIn 2 eight, .next 0, .next 0]).get
      (by decide)

theorem send_reaches_of_through : (⟨0, 0, seven⟩ : WsMessage) ∈ through.sent :=
  @send_reaches ready called 0 seven reachable_ready (.toOne (some 7)) (by decide) (by decide)
    (by decide) (by decide) (Option.some_get _).symm _ through (Option.some_get _).symm
    (by decide)

end TwoUsersWitness

end ReportsFramework.WsSys
