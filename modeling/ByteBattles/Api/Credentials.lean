import ByteBattles.Api.Authorization
import ByteBattles.Api.ProfileUpdate

/-!
# Credentials

The password that a user has chosen last, and no other, logs in, under the username and
under the email that the account has at that time.
-/

namespace ByteBattles.Api

open ByteBattles.Lib

variable {lib : Libraries} {cfg : Config} {env : Environment} {s t : Store}
  {st st' st'' : State} {request : Request} {id : Int} {hash : Str}

/-- The hasher accepts a password for a hash exactly if the hash was made from it. -/
structure Libraries.Verifies (lib : Libraries) : Prop where
  verify_hash : ∀ salt password attempt,
    lib.verify attempt (lib.hash salt password) = true ↔ attempt = password

/-- The request chooses the password of the account. -/
inductive SetsPassword (env : Environment) (s : Store) : Request → Int → Str → Prop
  | register (body : UserCreateBody) :
      SetsPassword env s (.register body) s.user_serial body.password
  | update {token : Option Token} {body : UserUpdateBody} {current_user : User} {password : Str}
      (hauth : getCurrentUser s.users env.now token = .ok current_user)
      (hpassword : body.password = some password) :
      SetsPassword env s (.updateCurrentUser token body) current_user.id password

def Request.endsPassword : Request → Bool
  | .deleteCurrentUser _ => true
  | .updateCurrentUser _ body => body.password.isSome
  | _ => false

def EndsPassword (id : Int) (st : State) : Action → Prop
  | .request env request =>
      request.endsPassword = true ∧ ∃ c ∈ caller st.store env request, c.id = id
  | _ => False

instance (id : Int) (st : State) : DecidablePred (EndsPassword id st)
  | .request env request =>
      inferInstanceAs (Decidable (_ ∧ ∃ c ∈ caller st.store env request, c.id = id))
  | .promote _ | .pick | .requeue _ | .judged _ _ => isFalse not_false

def HasHash (id : Int) (hash : Str) (s : Store) : Prop :=
  ∃ user ∈ s.users, user.id = id ∧ user.password_hash = hash

/-! ## The password is chosen -/

theorem password_of_ofStr {text : Str} {password : Password}
    (h : Password.ofStr text = some password) : password.text = text := by
  unfold Password.ofStr at h
  split at h
  case isTrue =>
    obtain rfl := Option.some.inj h
    rfl
  case isFalse => cases h

theorem password_of_create {body : UserCreateBody} {new_user : UserCreate}
    (h : body.validate lib = some new_user) : new_user.password.text = body.password := by
  obtain ⟨username, -, h⟩ := Option.bind_eq_some_iff.mp h
  obtain ⟨email, -, h⟩ := Option.bind_eq_some_iff.mp h
  obtain ⟨password, hpassword, h⟩ := Option.bind_eq_some_iff.mp h
  obtain rfl := Option.some.inj h
  exact password_of_ofStr hpassword

theorem password_of_update {body : UserUpdateBody} {updates : UserUpdate}
    (h : body.validate lib = some updates) : updates.password.map (·.text) = body.password := by
  obtain ⟨username, -, h⟩ := Option.bind_eq_some_iff.mp h
  obtain ⟨email, -, h⟩ := Option.bind_eq_some_iff.mp h
  obtain ⟨password, hpassword, h⟩ := Option.bind_eq_some_iff.mp h
  obtain rfl := Option.some.inj h
  show password.map (·.text) = body.password
  cases htext : body.password with
  | none =>
      rw [htext] at hpassword
      obtain rfl := Option.some.inj hpassword
      rfl
  | some text =>
      rw [htext] at hpassword
      obtain ⟨chosen, hchosen, rfl⟩ := Option.map_eq_some_iff.mp hpassword
      rw [Option.map_some, password_of_ofStr hchosen]

theorem register_ok (body : UserCreateBody) :
    (serve lib cfg env (.register body)).Ends s fun result t => ∀ response,
      result = .ok response → HasHash s.user_serial (lib.hash env.salt body.password) t := by
  apply ends_respond
  unfold register
  refine ends_parsed (fun _ h => by cases h) fun new_user hvalid => ?_
  refine Handler.Ends.refuseIf_bind (fun _ _ h => by cases h) fun _ => ?_
  refine Environment.ends_call (fun _ _ h => by cases h) fun _ => ?_
  apply Handler.Ends.read_bind
  refine Handler.Ends.refuseIf_bind (fun _ _ h => by cases h) fun _ => ?_
  refine Environment.ends_call (fun _ _ h => by cases h) fun _ => ?_
  apply Handler.Ends.write_bind
  refine Environment.ends_call (fun _ _ h => by cases h) fun _ => ?_
  apply Handler.Ends.pure
  intro _ _
  refine ⟨_, List.mem_append_right _ (List.mem_singleton.mpr rfl), rfl, ?_⟩
  show lib.hash env.salt new_user.password.text = _
  rw [password_of_create hvalid]

theorem updateCurrentUser_ok {token : Option Token} {body : UserUpdateBody}
    {current_user : User} (hauth : getCurrentUser s.users env.now token = .ok current_user) :
    (serve lib cfg env (.updateCurrentUser token body)).Ends s fun result t => ∀ response,
      result = .ok response → ∃ updates user, body.validate lib = some updates ∧
        changedUser lib env.salt s.users current_user updates = .ok user ∧ t = s.setUser user := by
  apply ends_respond
  refine ends_withCurrentUser (fun _ _ h => by cases h) (fun _ _ _ h => by cases h)
    fun _ found hfound => ?_
  obtain rfl : found = current_user := Except.ok.inj (hfound.symm.trans hauth)
  unfold updateCurrentUser
  refine ends_parsed (fun _ h => by cases h) fun updates hvalid => ?_
  apply Handler.Ends.read_bind
  refine Handler.Ends.ofExcept_bind (fun _ _ _ h => by cases h) fun user hchanged => ?_
  refine Environment.ends_call (fun _ _ h => by cases h) fun _ => ?_
  apply Handler.Ends.write_bind
  refine Environment.ends_call (fun _ _ h => by cases h) fun _ => ?_
  apply Handler.Ends.pure
  intro _ _
  exact ⟨updates, user, hvalid, hchanged, rfl⟩

theorem mem_setUser {current_user user : User} (hcurrent : current_user ∈ s.users)
    (hid : user.id = current_user.id) : user ∈ (s.setUser user).users :=
  List.mem_map.mpr ⟨current_user, hcurrent, if_pos hid.symm⟩

theorem hasHash_of_served {password : Str} {response : Response}
    (hset : SetsPassword env s request id password)
    (hok : (serve lib cfg env request s).1 = .ok response) :
    HasHash id (lib.hash env.salt password) (serve lib cfg env request s).2 := by
  cases hset with
  | register body => exact register_ok body response hok
  | @update token body current_user password hauth hpassword =>
      obtain ⟨updates, user, hvalid, hchanged, hstore⟩ := updateCurrentUser_ok hauth response hok
      obtain ⟨_, payload, -, -, hfound⟩ := getCurrentUser_eq_ok.mp hauth
      have hcurrent : current_user ∈ s.users := (userById_eq_some hfound).1
      rw [hstore]
      refine ⟨user, mem_setUser hcurrent (changedUser_id hchanged), changedUser_id hchanged, ?_⟩
      have hchosen : updates.password.map (·.text) = some password :=
        (password_of_update hvalid).trans hpassword
      obtain ⟨chosen, hchosen', rfl⟩ := Option.map_eq_some_iff.mp hchosen
      obtain ⟨_, hhash, -, -, hrow⟩ := changedUser_eq_ok hchanged
      have htext : truthy (updates.password.map (·.text)) = some chosen.text := by
        rw [hchosen, truthy_of_ne_nil chosen.ne_nil]
      rw [hrow]
      show _ = lib.hash env.salt chosen.text
      rw [(changedPassword_eq_ok hhash).1, htext]
      rfl

/-! ## The password stays -/

theorem HasHash.of_subset (h : HasHash id hash s) (husers : s.users ⊆ t.users) :
    HasHash id hash t := by
  obtain ⟨user, huser, hid, hhash⟩ := h
  exact ⟨user, husers huser, hid, hhash⟩

theorem HasHash.effect (h : HasHash id hash s) (hs : Identified s)
    (heffect : Effect lib env s request t)
    (hother : request.endsPassword = true → ∀ c ∈ caller s env request, c.id ≠ id) :
    HasHash id hash t := by
  cases heffect with
  | registered => exact h.of_subset (List.subset_append_left _ _)
  | @updated token body updates current_user user hauth hvalid hchanged =>
      obtain ⟨_, payload, -, -, hfound⟩ := getCurrentUser_eq_ok.mp hauth
      have hcurrent : current_user ∈ s.users := (userById_eq_some hfound).1
      obtain ⟨owner, howner, rfl, rfl⟩ := h
      by_cases hsame : owner.id = user.id
      · -- the user's own update, which chooses no password
        have howner' : owner = current_user :=
          hs.ids.eq howner hcurrent (hsame.trans (changedUser_id hchanged))
        subst howner'
        have hnone : body.password = none := by
          cases hpassword : body.password with
          | none => rfl
          | some password =>
              have hends : (Request.updateCurrentUser token body).endsPassword = true := by
                simp [Request.endsPassword, hpassword]
              exact absurd rfl (hother hends owner (mem_caller.mpr hauth))
        obtain ⟨_, hhash, -, -, hrow⟩ := changedUser_eq_ok hchanged
        have htext : truthy (updates.password.map (·.text)) = none := by
          rw [password_of_update hvalid, hnone]
          rfl
        refine ⟨user, mem_setUser hcurrent hsame.symm, hsame.symm, ?_⟩
        rw [hrow]
        show _ = owner.password_hash
        rw [(changedPassword_eq_ok hhash).1, htext]
        rfl
      · exact ⟨owner, List.mem_map.mpr ⟨owner, howner, if_neg hsame⟩, rfl, rfl⟩
  | @userDeleted token current_user hauth =>
      obtain ⟨owner, howner, rfl, rfl⟩ := h
      have hne := hother rfl current_user (mem_caller.mpr hauth)
      exact ⟨owner, List.mem_filter.mpr ⟨howner, by simpa using hne.symm⟩, rfl, rfl⟩
  | submission hauth houtcome =>
      cases houtcome <;> exact h.of_subset (List.Subset.refl _)
  | _ => exact h.of_subset (List.Subset.refl _)

theorem HasHash.promote (h : HasHash id hash s) (k : Int) : HasHash id hash (s.promote k) := by
  obtain ⟨user, huser, hid, hhash⟩ := h
  refine ⟨user.promoted k, ?_, (user.promoted_id k).trans hid, ?_⟩
  · rw [promote_users]
    exact List.mem_map_of_mem huser
  · exact (user.column_promoted k (·.password_hash) rfl).trans hhash

theorem hasHash_of_path (h : (system lib cfg).Reachable st) (hhash : HasHash id hash st.store)
    (hpath : (system lib cfg).PathUnder (fun st a => ¬ EndsPassword id st a) st st') :
    (system lib cfg).Reachable st' ∧ HasHash id hash st'.store := by
  apply System.PreservedUnder.path (I := fun st => (system lib cfg).Reachable st ∧
    HasHash id hash st.store) ?_ ⟨h, hhash⟩ hpath
  intro u v a _ ⟨hu, hhash⟩ hspares hstep
  refine ⟨reachable_step hu hstep, ?_⟩
  cases moves_of_step hstep with
  | @request env request result store hnow htoken hserve heffect =>
      apply hhash.effect (identified_of_reachable hu) heffect
      intro hends c hc hid
      exact hspares ⟨hends, c, hc, hid⟩
  | promote k => exact hhash.promote k
  | pick hjobs => exact hhash
  | requeue hpicked => exact hhash
  | judged result hpicked => exact hhash

/-! ## The login -/

theorem userByLogin_of_hasLogin (hs : Identified s) {user : User} (huser : user ∈ s.users)
    {identifier : Str} (hlogin : user.HasLogin identifier) :
    userByLogin s.users identifier = some user := by
  cases hfound : userByLogin s.users identifier with
  | none =>
      rw [userByLogin, Option.or_eq_none_iff] at hfound
      apply hlogin.elim
      · intro husername
        exact absurd husername (userByUsername_eq_none hfound.1 user huser)
      · intro hemail
        exact absurd hemail (userByEmail_eq_none hfound.2 user huser)
  | some found =>
      obtain ⟨hmem, hfoundLogin⟩ := userByLogin_eq_some hfound
      rw [hs.eq_of_hasLogin hmem huser hfoundLogin hlogin]

/-- What a login answers to somebody who knows an identifier of the account. -/
theorem login_result {user : User} {identifier attempt : Str}
    (hfound : userByLogin s.users identifier = some user) (hidentifier : identifier ≠ [])
    (hattempt : attempt ≠ []) (hquery : env.raises .query = false) :
    (login lib cfg env identifier attempt s).1 =
      if lib.verify attempt user.password_hash = true then
        .ok ⟨createAccessToken cfg env.now ⟨user.id⟩, createRefreshToken cfg env.now ⟨user.id⟩⟩
      else .error invalidLogin := by
  have hends : (login lib cfg env identifier attempt).Ends s fun result _ => result =
      if lib.verify attempt user.password_hash = true then
        .ok ⟨createAccessToken cfg env.now ⟨user.id⟩, createRefreshToken cfg env.now ⟨user.id⟩⟩
      else .error invalidLogin := by
    unfold login
    refine Handler.Ends.refuseIf_bind (fun h => ?_) fun _ => ?_
    · exact absurd h (by simp [hidentifier, hattempt])
    · refine Environment.ends_call (fun h => by simp [hquery] at h) fun _ => ?_
      apply Handler.Ends.read_bind
      rw [hfound]
      refine Handler.Ends.refuseIf_bind (fun hverify => ?_) fun hverify => ?_
      · rw [if_neg (by simp [hverify])]
      · apply Handler.Ends.pure
        rw [if_pos (by simpa using hverify)]
  exact hends

/-- **Credentials come back**: after a password has been chosen, by a registration or an
update, and until the account is deleted or another password is chosen, whatever else
happens, a login under the username or the email that the account has gives out its tokens
for this password and is refused for every other one. -/
theorem credentials_round_trip {password : Str} {response : Response} (hlib : lib.Verifies)
    (h : (system lib cfg).Reachable st) (hset : SetsPassword env st.store request id password)
    (hok : (serve lib cfg env request st.store).1 = .ok response)
    (hstep : step lib cfg st (.request env request) = some st')
    (hpath : (system lib cfg).PathUnder (fun st a => ¬ EndsPassword id st a) st' st'') :
    ∃ user ∈ st''.store.users, user.id = id ∧
      ∀ identifier, user.HasLogin identifier → identifier ≠ [] →
        ∀ env attempt, attempt ≠ [] → env.raises .query = false →
          (login lib cfg env identifier attempt st''.store).1 =
            if attempt = password then
              .ok ⟨createAccessToken cfg env.now ⟨id⟩, createRefreshToken cfg env.now ⟨id⟩⟩
            else .error invalidLogin := by
  have hstore : st'.store = (serve lib cfg env request st.store).2 := by
    cases moves_of_step hstep with
    | request hnow htoken hserve heffect => rw [hserve]
  have hhash : HasHash id (lib.hash env.salt password) st'.store := by
    rw [hstore]
    exact hasHash_of_served hset hok
  obtain ⟨hreach, user, huser, rfl, hchosen⟩ :=
    hasHash_of_path (reachable_step h hstep) hhash hpath
  refine ⟨user, huser, rfl, ?_⟩
  intro identifier hlogin hidentifier env attempt hattempt hquery
  have hfound := userByLogin_of_hasLogin (identified_of_reachable hreach) huser hlogin
  rw [login_result hfound hidentifier hattempt hquery, hchosen]
  simp only [hlib.verify_hash]

/-! ## A password that is chosen twice -/

theorem verifies_plain : plain.Verifies where
  verify_hash := by
    intro salt password attempt
    show (attempt == password) = true ↔ attempt = password
    exact beq_iff_eq

def choosing : Request :=
  .updateCurrentUser (some annToken)
    ⟨none, none, some "s3cretss".toList, some "s3cretss".toList⟩

def afterChoosing : List Action :=
  [.request (quiet 8 CreateProblem.ones)
      (.updateCurrentUser (some annToken) ⟨none, some "a@x".toList, none, none⟩),
    .request (quiet 9 CreateProblem.ones)
      (.register { ann with username := "bob".toList })]

theorem credentials_round_trip_chosen :
    ∃ st'' : State, ∃ user ∈ st''.store.users, user.id = 1 ∧
      ∀ identifier, user.HasLogin identifier → identifier ≠ [] →
        (login plain halfHour (quiet 10 CreateProblem.zeros) identifier ann.password
          st''.store).1 = .error invalidLogin := by
  obtain ⟨st, hfirst, hauth, hserved, hrest⟩ :=
    System.exists_path (system plain halfHour) (fun _ _ => True) start sessionRun
      (fun st =>
        (getCurrentUser st.store.users 7 (some annToken)).toOption.any (·.id == 1) = true ∧
        (serve plain halfHour (quiet 7 CreateProblem.zeros) choosing st.store).1.isOk = true ∧
        (step plain halfHour st (.request (quiet 7 CreateProblem.zeros) choosing)).any (fun st' =>
          ((system plain halfHour).runUnder (fun st a => ¬ EndsPassword 1 st a) st'
            afterChoosing).any fun st'' => decide (st''.store.users.length = 2)) = true)
      (by decide +kernel)
  have hreach : (system plain halfHour).Reachable st := ⟨_, rfl, hfirst⟩
  obtain ⟨st', hstep, hafter⟩ := (Option.any_eq_true _ _).mp hrest
  obtain ⟨st'', hpath, -⟩ := System.exists_path _ _ _ _ _ hafter
  obtain ⟨response, hresponse⟩ := exists_of_isOk hserved
  obtain ⟨current_user, hcurrent, hid⟩ := (Option.any_eq_true _ _).mp hauth
  have hset : SetsPassword (quiet 7 CreateProblem.zeros) st.store choosing 1 "s3cretss".toList := by
    rw [← eq_of_beq hid]
    exact .update (ok_of_toOption hcurrent) rfl
  obtain ⟨user, huser, huserId, hlogin⟩ :=
    credentials_round_trip verifies_plain hreach hset hresponse hstep hpath
  refine ⟨st'', user, huser, huserId, fun identifier hidentifier hne => ?_⟩
  exact hlogin identifier hidentifier hne (quiet 10 CreateProblem.zeros) ann.password
    (by decide) rfl

end ByteBattles.Api
