/-
`getUsersArgs`: the arguments of the requests to the sub-users, and which sub-user an id is sent to.
-/
import Mathlib.Data.Int.Notation
import Mathlib.Data.List.Nodup
import Mathlib.Tactic.SplitIfs

namespace ReportsFramework

namespace SubAccountApiData

structure Auth where
  apiKey : String
  apiSecret : String
deriving DecidableEq, Repr

/-- A key is `none` where it is no text. -/
structure SubUser where
  _id : ℤ
  apiKey : Option String
  apiSecret : Option String
deriving DecidableEq, Repr

/-- The keys of a sub-user, if both are there. -/
def SubUser.auth? (subUser : SubUser) : Option Auth :=
  match subUser.apiKey, subUser.apiSecret with
  | some apiKey, some apiSecret =>
      if apiKey = "" ∨ apiSecret = "" then none else some { apiKey, apiSecret }
  | _, _ => none

/-- The parameter `id`. -/
inductive IdParam
  | absent
  | one (id : ℤ)
  | many (ids : List ℤ)
deriving DecidableEq, Repr

namespace IdParam

/-- `_hasId` -/
def hasId : IdParam → Bool
  | absent => false
  | one _ => true
  | many ids => !ids.isEmpty

def ids : IdParam → List ℤ
  | absent => []
  | one id => [id]
  | many ids => ids

end IdParam

/-- The parameters of a request; `rest` is passed on as it is. -/
structure RequestParams (ρ : Type*) where
  id : IdParam
  notThrowError : Bool := false
  notCheckNextPage : Bool := false
  rest : ρ

structure UserArgs (ρ : Type*) where
  auth : Auth
  params : RequestParams ρ

/-- A stored record of what is asked for by its id. -/
structure StoredItem where
  field : String → Option ℤ
  subUserId : Option ℤ

section Args

variable {ρ : Type*}

/-- The arguments that are pushed for valid keys. -/
def argsWith (isNotPreparedResponse : Bool) (params : RequestParams ρ) (auth : Auth)
    (id : IdParam) : UserArgs ρ where
  auth := auth
  params := {
    id := id
    notThrowError := !isNotPreparedResponse || params.notThrowError
    notCheckNextPage := !isNotPreparedResponse || params.notCheckNextPage
    rest := params.rest }

def pushArgs (isNotPreparedResponse : Bool) (accum : List (UserArgs ρ)) (params : RequestParams ρ)
    (auth : Option Auth) (itemId : IdParam) : List (UserArgs ρ) :=
  match auth with
  | none => accum
  | some auth =>
      accum ++ [argsWith isNotPreparedResponse params auth
        (if itemId.hasId then itemId else params.id)]

/-- The sub-user that the first record with an id is of. -/
def ownerOf (idFieldName : String) (dataToFindSubUserId : List StoredItem)
    (subUsers : List SubUser) (id : ℤ) : Option SubUser :=
  (dataToFindSubUserId.find? fun item => item.field idFieldName = some id).bind fun item =>
    item.subUserId.bind fun subUserId => subUsers.find? fun user => subUserId = user._id

/-- The id is pushed to the arguments with the keys; `none` where there are none, or where they have
no list. -/
def pushId (auth : Auth) (id : ℤ) : List (UserArgs ρ) → Option (List (UserArgs ρ))
  | [] => none
  | item :: accum =>
      if item.auth = auth then
        match item.params.id with
        | .many ids =>
            some ({ item with params := { item.params with id := .many (ids ++ [id]) } } :: accum)
        | _ => none
      else (pushId auth id accum).map (item :: ·)

/-- What one id adds. -/
def routeId (isNotPreparedResponse : Bool) (params : RequestParams ρ)
    (owner : ℤ → Option SubUser) (accum : List (UserArgs ρ)) (currId : ℤ) : List (UserArgs ρ) :=
  match (owner currId).bind SubUser.auth? with
  | none => accum
  | some auth =>
      match params.id with
      | .many _ =>
          (pushId auth currId accum).getD
            (pushArgs isNotPreparedResponse accum params (some auth) (.many [currId]))
      | _ => pushArgs isNotPreparedResponse accum params (some auth) (.one currId)

/-- The arguments of the owners of the ids. -/
def routeIds (isNotPreparedResponse : Bool) (params : RequestParams ρ)
    (owner : ℤ → Option SubUser) : List (UserArgs ρ) :=
  params.id.ids.foldl (routeId isNotPreparedResponse params owner) []

/-- The arguments of all sub-users. -/
def pushAll (isNotPreparedResponse : Bool) (params : RequestParams ρ) (subUsers : List SubUser) :
    List (UserArgs ρ) :=
  subUsers.foldl (fun accum subUser =>
    pushArgs isNotPreparedResponse accum params subUser.auth? .absent) []

/-- `typeof idFieldName`, a name that is not declared. -/
def typeofIdFieldName : String := "undefined"

def getUsersArgs (params : RequestParams ρ) (subUsers : List SubUser)
    (dataToFindSubUserId : List StoredItem) (idFieldNameForFinding : String)
    (isNotPreparedResponse : Bool) : List (UserArgs ρ) :=
  if dataToFindSubUserId.isEmpty || !params.id.hasId || idFieldNameForFinding = "" ||
      typeofIdFieldName ≠ "string" then
    pushAll isNotPreparedResponse params subUsers
  else
    routeIds isNotPreparedResponse params
      (ownerOf idFieldNameForFinding dataToFindSubUserId subUsers)

/-- The keys that an id is sent with. -/
def ownerAuth (owner : ℤ → Option SubUser) (id : ℤ) : Option Auth :=
  (owner id).bind SubUser.auth?

/-- All ids that are sent. -/
def sentIds (usersArgs : List (UserArgs ρ)) : List ℤ :=
  usersArgs.flatMap fun args => args.params.id.ids

/-- Each id is sent to its owner only, and once; without ids every sub-user is asked. -/
structure Routes (params : RequestParams ρ) (subUsers : List SubUser)
    (owner : ℤ → Option SubUser) (usersArgs : List (UserArgs ρ)) : Prop where
  toOwner : params.id.hasId = true → ∀ args ∈ usersArgs, ∀ id ∈ args.params.id.ids,
    ownerAuth owner id = some args.auth
  once : params.id.hasId = true → ∀ id ∈ params.id.ids, (ownerAuth owner id).isSome = true →
    (sentIds usersArgs).count id = 1
  everyUser : params.id.hasId = false →
    usersArgs.map UserArgs.auth = subUsers.filterMap SubUser.auth? ∧
      ∀ args ∈ usersArgs, args.params.id.ids = []

/-! ### The request to every sub-user -/

theorem pushAll_eq (isNotPreparedResponse : Bool) (params : RequestParams ρ)
    (subUsers : List SubUser) :
    pushAll isNotPreparedResponse params subUsers =
      (subUsers.filterMap SubUser.auth?).map fun auth =>
        argsWith isNotPreparedResponse params auth params.id := by
  have hfold (accum : List (UserArgs ρ)) :
      subUsers.foldl (fun accum subUser =>
        pushArgs isNotPreparedResponse accum params subUser.auth? .absent) accum =
      accum ++ (subUsers.filterMap SubUser.auth?).map fun auth =>
        argsWith isNotPreparedResponse params auth params.id := by
    induction subUsers generalizing accum with
    | nil => simp
    | cons subUser subUsers ih =>
        rw [List.foldl_cons, ih]
        cases hauth : subUser.auth? with
        | none => simp [pushArgs, hauth]
        | some auth => simp [pushArgs, hauth, IdParam.hasId]
  exact (hfold []).trans (List.nil_append _)

/-- The guard holds of every request: the name that it reads is not the one of the option. -/
theorem getUsersArgs_eq_pushAll (params : RequestParams ρ) (subUsers : List SubUser)
    (dataToFindSubUserId : List StoredItem) (idFieldNameForFinding : String)
    (isNotPreparedResponse : Bool) :
    getUsersArgs params subUsers dataToFindSubUserId idFieldNameForFinding isNotPreparedResponse =
      pushAll isNotPreparedResponse params subUsers := by
  have hguard : decide (typeofIdFieldName ≠ "string") = true := by decide
  unfold getUsersArgs
  rw [hguard, Bool.or_true, if_pos rfl]

/-! ### The branch that is not reached -/

/-- The requests hold lists of ids of those that they are sent to. -/
def Collected (owner : ℤ → Option SubUser) (usersArgs : List (UserArgs ρ)) : Prop :=
  ∀ args ∈ usersArgs, ∃ ids, args.params.id = .many ids ∧
    ∀ id ∈ ids, ownerAuth owner id = some args.auth

theorem pushId_spec {owner : ℤ → Option SubUser} {auth : Auth} {id : ℤ}
    (howner : ownerAuth owner id = some auth) {accum : List (UserArgs ρ)}
    (hcollected : Collected owner accum) {accum' : List (UserArgs ρ)}
    (hpush : pushId auth id accum = some accum') :
    Collected owner accum' ∧
      ∀ other, (sentIds accum').count other = (sentIds accum).count other + [id].count other := by
  induction accum generalizing accum' with
  | nil => simp [pushId] at hpush
  | cons item accum ih =>
      obtain ⟨ids, hids, hown⟩ := hcollected item List.mem_cons_self
      have hrest : Collected owner accum := fun args hargs =>
        hcollected args (List.mem_cons_of_mem item hargs)
      by_cases hauth : item.auth = auth
      · simp only [pushId, hauth, if_true, hids, Option.some.injEq] at hpush
        subst hpush
        constructor
        · intro args hargs
          rcases List.mem_cons.mp hargs with rfl | hargs
          · refine ⟨ids ++ [id], rfl, ?_⟩
            intro other hother
            rcases List.mem_append.mp hother with hother | hother
            · exact (hown other hother).trans (congrArg some hauth)
            · rw [List.mem_singleton.mp hother]
              exact howner
          · exact hrest args hargs
        · intro other
          simp only [sentIds, List.flatMap_cons, List.count_append, hids, IdParam.ids]
          omega
      · simp only [pushId, hauth, if_false, Option.map_eq_some_iff] at hpush
        obtain ⟨rest, hpushRest, rfl⟩ := hpush
        obtain ⟨hcollected', hcount⟩ := ih hrest hpushRest
        constructor
        · intro args hargs
          rcases List.mem_cons.mp hargs with rfl | hargs
          · exact ⟨ids, hids, hown⟩
          · exact hcollected' args hargs
        · intro other
          have hother := hcount other
          simp only [sentIds, List.flatMap_cons, List.count_append] at hother ⊢
          omega

theorem routeId_spec (isNotPreparedResponse : Bool) (params : RequestParams ρ)
    {owner : ℤ → Option SubUser} {ids : List ℤ} (hids : params.id = .many ids)
    {accum : List (UserArgs ρ)} (hcollected : Collected owner accum) (currId : ℤ) :
    Collected owner (routeId isNotPreparedResponse params owner accum currId) ∧
      ∀ other, (sentIds (routeId isNotPreparedResponse params owner accum currId)).count other =
        (sentIds accum).count other +
          if (ownerAuth owner currId).isSome then [currId].count other else 0 := by
  cases howner : ownerAuth owner currId with
  | none =>
      have hroute : routeId isNotPreparedResponse params owner accum currId = accum := by
        simp only [ownerAuth] at howner
        simp [routeId, howner]
      simp [hroute, hcollected]
  | some auth =>
      have hroute : routeId isNotPreparedResponse params owner accum currId =
          (pushId auth currId accum).getD
            (pushArgs isNotPreparedResponse accum params (some auth) (.many [currId])) := by
        have howner' := howner
        simp only [ownerAuth] at howner'
        simp [routeId, howner', hids]
      rw [hroute]
      cases hpush : pushId auth currId accum with
      | some accum' => simpa using pushId_spec howner hcollected hpush
      | none =>
          have hsent : (if (IdParam.many [currId]).hasId then .many [currId] else params.id) =
              IdParam.many [currId] := rfl
          simp only [Option.getD_none, pushArgs, hsent]
          constructor
          · intro args hargs
            rcases List.mem_append.mp hargs with hargs | hargs
            · exact hcollected args hargs
            · rw [List.mem_singleton.mp hargs]
              refine ⟨[currId], rfl, ?_⟩
              intro id hid
              rw [List.mem_singleton.mp hid]
              exact howner
          · intro other
            simp [sentIds, argsWith, IdParam.ids]

theorem foldl_routeId_spec (isNotPreparedResponse : Bool) (params : RequestParams ρ)
    {owner : ℤ → Option SubUser} {ids : List ℤ} (hids : params.id = .many ids)
    (currIds : List ℤ) {accum : List (UserArgs ρ)} (hcollected : Collected owner accum) :
    Collected owner (currIds.foldl (routeId isNotPreparedResponse params owner) accum) ∧
      ∀ other, (ownerAuth owner other).isSome = true →
        (sentIds (currIds.foldl (routeId isNotPreparedResponse params owner) accum)).count other =
          (sentIds accum).count other + currIds.count other := by
  induction currIds generalizing accum with
  | nil => simp [hcollected]
  | cons currId currIds ih =>
      obtain ⟨hstep, hcount⟩ := routeId_spec isNotPreparedResponse params hids hcollected currId
      obtain ⟨hrun, hcountRun⟩ := ih hstep
      refine ⟨hrun, ?_⟩
      intro other howned
      rw [List.foldl_cons, hcountRun other howned, hcount other]
      by_cases hother : currId = other
      · subst hother
        simp only [howned, if_true, List.count_cons_self, List.count_nil]
        omega
      · simp [hother]

/-- Had the guard let them through, ids that differ would have been routed as they should be. -/
theorem routeIds_routes (isNotPreparedResponse : Bool) (params : RequestParams ρ)
    (subUsers : List SubUser) (owner : ℤ → Option SubUser) (hhas : params.id.hasId = true)
    (hnodup : params.id.ids.Nodup) :
    Routes params subUsers owner (routeIds isNotPreparedResponse params owner) := by
  cases hid : params.id with
  | absent => simp [hid, IdParam.hasId] at hhas
  | one id =>
      have hroute : routeIds isNotPreparedResponse params owner =
          pushArgs isNotPreparedResponse [] params (ownerAuth owner id) (.one id) := by
        cases howner : (owner id).bind SubUser.auth? with
        | none => simp [routeIds, hid, IdParam.ids, routeId, ownerAuth, howner, pushArgs]
        | some auth => simp [routeIds, hid, IdParam.ids, routeId, ownerAuth, howner]
      rw [hroute]
      refine ⟨?_, ?_, by simp [hhas]⟩
      · intro _ args hargs other hother
        cases howner : ownerAuth owner id with
        | none => simp [howner, pushArgs] at hargs
        | some auth =>
            have hargs' : args = argsWith isNotPreparedResponse params auth (.one id) := by
              simpa [howner, pushArgs, IdParam.hasId] using hargs
            subst hargs'
            rw [List.mem_singleton.mp hother]
            exact howner
      · intro _ other hother howned
        rw [hid] at hother
        rw [List.mem_singleton.mp hother] at howned ⊢
        obtain ⟨auth, howner⟩ := Option.isSome_iff_exists.mp howned
        simp [howner, pushArgs, IdParam.hasId, sentIds, argsWith, IdParam.ids]
  | many ids =>
      have hnone : Collected owner ([] : List (UserArgs ρ)) := by simp [Collected]
      obtain ⟨hcollected, hcount⟩ :=
        foldl_routeId_spec isNotPreparedResponse params hid params.id.ids hnone
      refine ⟨?_, ?_, by simp [hhas]⟩
      · intro _ args hargs id hidArgs
        obtain ⟨ids', hids', hown⟩ := hcollected args hargs
        rw [hids'] at hidArgs
        exact hown id hidArgs
      · intro _ id hidIn howned
        rw [routeIds, hcount id howned, sentIds, List.flatMap_nil, List.count_nil,
          List.count_eq_one_of_mem hnodup hidIn]

/-! ### When the ids are routed -/

/-- A sub-user has the keys that its requests are sent with. -/
def HasKeys (subUser : SubUser) : Prop := (subUser.auth?).isSome = true

theorem exists_mem_ids {id : IdParam} (hhas : id.hasId = true) : ∃ x, x ∈ id.ids := by
  cases id with
  | absent => simp [IdParam.hasId] at hhas
  | one x => exact ⟨x, List.mem_singleton_self x⟩
  | many ids =>
      cases ids with
      | nil => simp [IdParam.hasId] at hhas
      | cons x ids => exact ⟨x, List.mem_cons_self⟩

theorem ids_eq_nil {id : IdParam} (hhas : id.hasId = false) : id.ids = [] := by
  cases id with
  | absent => rfl
  | one x => simp [IdParam.hasId] at hhas
  | many ids => simpa [IdParam.hasId, IdParam.ids] using hhas

theorem ownerOf_mem {idFieldName : String} {data : List StoredItem} {subUsers : List SubUser}
    {id : ℤ} {subUser : SubUser} (howner : ownerOf idFieldName data subUsers id = some subUser) :
    subUser ∈ subUsers := by
  simp only [ownerOf, Option.bind_eq_some_iff] at howner
  obtain ⟨_, _, _, _, hfind⟩ := howner
  exact List.mem_of_find?_eq_some hfind

theorem sentIds_pushAll (isNotPreparedResponse : Bool) (params : RequestParams ρ)
    (subUsers : List SubUser) (id : ℤ) :
    (sentIds (pushAll isNotPreparedResponse params subUsers)).count id =
      (subUsers.filterMap SubUser.auth?).length * params.id.ids.count id := by
  rw [pushAll_eq]
  induction subUsers.filterMap SubUser.auth? with
  | nil => simp [sentIds]
  | cons auth auths ih =>
      have hcons : sentIds ((auth :: auths).map fun auth =>
          argsWith isNotPreparedResponse params auth params.id) =
          params.id.ids ++ sentIds (auths.map fun auth =>
            argsWith isNotPreparedResponse params auth params.id) := rfl
      rw [hcons, List.count_append, ih, List.length_cons, Nat.add_mul, Nat.one_mul, Nat.add_comm]

theorem length_filterMap_auth {subUsers : List SubUser}
    (hkeys : ∀ subUser ∈ subUsers, HasKeys subUser) :
    (subUsers.filterMap SubUser.auth?).length = subUsers.length := by
  induction subUsers with
  | nil => rfl
  | cons subUser subUsers ih =>
      obtain ⟨auth, hauth⟩ := Option.isSome_iff_exists.mp (hkeys subUser List.mem_cons_self)
      rw [List.filterMap_cons_some hauth, List.length_cons, List.length_cons,
        ih fun other hother => hkeys other (List.mem_cons_of_mem subUser hother)]

/-- Ids are sent as they should be only where there is no choice: with at most one sub-user, that
owns all of them. -/
theorem getUsersArgs_routes_iff (params : RequestParams ρ) (subUsers : List SubUser)
    (dataToFindSubUserId : List StoredItem) (idFieldNameForFinding : String)
    (isNotPreparedResponse : Bool) (hnodup : params.id.ids.Nodup)
    (hkeys : ∀ subUser ∈ subUsers, HasKeys subUser) :
    Routes params subUsers (ownerOf idFieldNameForFinding dataToFindSubUserId subUsers)
        (getUsersArgs params subUsers dataToFindSubUserId idFieldNameForFinding
          isNotPreparedResponse) ↔
      (params.id.hasId = true → subUsers.length ≤ 1 ∧ ∀ subUser ∈ subUsers, ∀ id ∈ params.id.ids,
        (ownerOf idFieldNameForFinding dataToFindSubUserId subUsers id).isSome = true) := by
  rw [getUsersArgs_eq_pushAll]
  have hmem (subUser : SubUser) (hsubUser : subUser ∈ subUsers) (auth : Auth)
      (hauth : subUser.auth? = some auth) :
      argsWith isNotPreparedResponse params auth params.id ∈
        pushAll isNotPreparedResponse params subUsers := by
    rw [pushAll_eq]
    exact List.mem_map_of_mem (List.mem_filterMap.mpr ⟨subUser, hsubUser, hauth⟩)
  constructor
  · intro hroutes hhas
    obtain ⟨x, hx⟩ := exists_mem_ids hhas
    have howned (subUser : SubUser) (hsubUser : subUser ∈ subUsers) (id : ℤ)
        (hid : id ∈ params.id.ids) :
        (ownerAuth (ownerOf idFieldNameForFinding dataToFindSubUserId subUsers) id).isSome
          = true := by
      obtain ⟨auth, hauth⟩ := Option.isSome_iff_exists.mp (hkeys subUser hsubUser)
      rw [hroutes.toOwner hhas _ (hmem subUser hsubUser auth hauth) id hid]
      rfl
    constructor
    · cases subUsers with
      | nil => simp
      | cons subUser rest =>
          have hone := hroutes.once hhas x hx (howned subUser List.mem_cons_self x hx)
          rw [sentIds_pushAll, length_filterMap_auth hkeys,
            List.count_eq_one_of_mem hnodup hx] at hone
          omega
    · intro subUser hsubUser id hid
      obtain ⟨auth, hauth⟩ := Option.isSome_iff_exists.mp (howned subUser hsubUser id hid)
      obtain ⟨owner, howner, _⟩ := Option.bind_eq_some_iff.mp hauth
      rw [howner]
      rfl
  · intro hwhen
    constructor
    · intro hhas args hargs id hid
      rw [pushAll_eq] at hargs
      obtain ⟨auth, hauth, rfl⟩ := List.mem_map.mp hargs
      obtain ⟨subUser, hsubUser, hauth⟩ := List.mem_filterMap.mp hauth
      obtain ⟨hlength, howned⟩ := hwhen hhas
      obtain ⟨owner, howner⟩ := Option.isSome_iff_exists.mp (howned subUser hsubUser id hid)
      have hsame : owner = subUser := by
        have hone := ownerOf_mem howner
        cases subUsers with
        | nil => simp at hsubUser
        | cons first rest =>
            have hrest : rest = [] := by
              simpa using hlength
            subst hrest
            rw [List.mem_singleton.mp hone, List.mem_singleton.mp hsubUser]
      simp only [ownerAuth, howner, Option.bind_some, hsame]
      exact hauth
    · intro hhas id hid howned
      obtain ⟨hlength, _⟩ := hwhen hhas
      obtain ⟨auth, hauth⟩ := Option.isSome_iff_exists.mp howned
      obtain ⟨owner, howner, _⟩ := Option.bind_eq_some_iff.mp hauth
      have hpos := List.length_pos_of_mem (ownerOf_mem howner)
      rw [sentIds_pushAll, length_filterMap_auth hkeys, List.count_eq_one_of_mem hnodup hid]
      omega
    · intro hhas
      rw [pushAll_eq]
      constructor
      · rw [List.map_map]
        exact List.map_id _
      · intro args hargs
        obtain ⟨auth, _, rfl⟩ := List.mem_map.mp hargs
        exact ids_eq_nil hhas

end Args

namespace RoutingWitness

def alice : SubUser := { _id := 2, apiKey := some "ka", apiSecret := some "sa" }

def bob : SubUser := { _id := 3, apiKey := some "kb", apiSecret := some "sb" }

/-- A stored position. -/
def position (id subUserId : ℤ) : StoredItem where
  field := fun name => if name = "id" then some id else none
  subUserId := some subUserId

def positions (ids : List ℤ) : RequestParams Unit := { id := .many ids, rest := () }

/-- The positions of the only sub-user are asked of it. -/
theorem single_routes :
    Routes (positions [7, 8]) [alice] (ownerOf "id" [position 7 2, position 8 2] [alice])
      (getUsersArgs (positions [7, 8]) [alice] [position 7 2, position 8 2] "id" false) := by
  refine (getUsersArgs_routes_iff (positions [7, 8]) [alice] [position 7 2, position 8 2] "id" false
    (by decide) ?_).mpr ?_
  · intro subUser hsubUser
    rw [List.mem_singleton.mp hsubUser]
    unfold HasKeys
    decide +kernel
  · intro _
    decide +kernel

/-- The position of the first sub-user is asked of the second one, too. -/
theorem not_routes :
    (∀ subUser ∈ [alice, bob], HasKeys subUser) ∧
      (ownerOf "id" [position 7 2] [alice, bob] 7) = some alice ∧
      ¬ Routes (positions [7]) [alice, bob] (ownerOf "id" [position 7 2] [alice, bob])
        (getUsersArgs (positions [7]) [alice, bob] [position 7 2] "id" false) := by
  refine ⟨?_, by decide +kernel, ?_⟩
  · intro subUser hsubUser
    unfold HasKeys
    revert subUser
    decide +kernel
  · intro hroutes
    have hone := hroutes.once rfl 7 (by decide) (by decide +kernel)
    revert hone
    decide +kernel

end RoutingWitness

end SubAccountApiData

end ReportsFramework
