import ByteBattles.Api.Sessions

/-!
# Login identifiers

A login looks its identifier up among the usernames, then among the emails.  No account
shadows another one: both columns are unique, and an email is no username.
-/

namespace ByteBattles.Api

open ByteBattles.Lib

variable {lib : Libraries} {cfg : Config} {env : Environment} {s t : Store} {st st' : State}

def User.HasLogin (user : User) (identifier : Str) : Prop :=
  user.username = identifier ∨ user.email = identifier

structure Identified (s : Store) : Prop where
  serial : ∀ user ∈ s.users, user.id < s.user_serial
  ids : Table.Unique (·.id) s.users
  usernames : Table.Unique (·.username) s.users
  emails : Table.Unique (·.email) s.users
  username : ∀ user ∈ s.users, '@' ∉ user.username
  email : ∀ user ∈ s.users, '@' ∈ user.email

/-! ## Lookups -/

theorem userByUsername_eq_some {users : List User} {username : Str} {user : User}
    (h : userByUsername users username = some user) : user ∈ users ∧ user.username = username :=
  ⟨List.mem_of_find?_eq_some h, by simpa using List.find?_some h⟩

theorem userByEmail_eq_some {users : List User} {email : Str} {user : User}
    (h : userByEmail users email = some user) : user ∈ users ∧ user.email = email :=
  ⟨List.mem_of_find?_eq_some h, by simpa using List.find?_some h⟩

theorem userByUsername_eq_none {users : List User} {username : Str}
    (h : userByUsername users username = none) : ∀ user ∈ users, user.username ≠ username := by
  intro user huser
  simpa using List.find?_eq_none.mp h user huser

theorem userByEmail_eq_none {users : List User} {email : Str}
    (h : userByEmail users email = none) : ∀ user ∈ users, user.email ≠ email := by
  intro user huser
  simpa using List.find?_eq_none.mp h user huser

theorem userByLogin_eq_some {users : List User} {identifier : Str} {user : User}
    (h : userByLogin users identifier = some user) : user ∈ users ∧ user.HasLogin identifier := by
  rw [userByLogin, Option.or_eq_some_iff] at h
  rcases h with h | ⟨-, h⟩
  · obtain ⟨hmem, husername⟩ := userByUsername_eq_some h
    exact ⟨hmem, .inl husername⟩
  · obtain ⟨hmem, hemail⟩ := userByEmail_eq_some h
    exact ⟨hmem, .inr hemail⟩

/-! ## What an update assigns -/

section

variable {users : List User} {current_user user : User}

theorem changedUsername_ok {username : Option Username} {text : Str}
    (h : changedUsername users current_user username = .ok text) :
    text = current_user.username ∨
      '@' ∉ text ∧ ∀ u ∈ users, u.username ≠ text := by
  cases username with
  | none => exact .inl (Except.ok.inj h).symm
  | some username =>
      rw [changedUsername] at h
      split at h
      case isTrue => cases h
      case isFalse hfree =>
        obtain rfl := Except.ok.inj h
        by_cases hsame : current_user.username = username.text
        · exact .inl hsame.symm
        · have hnone : userByUsername users username.text = none := by
            simpa [hsame] using hfree
          exact .inr ⟨username.at_not_mem, userByUsername_eq_none hnone⟩

theorem changedEmail_ok {email : Option EmailStr} {text : Str}
    (h : changedEmail users current_user email = .ok text) :
    text = current_user.email ∨ '@' ∈ text ∧ ∀ u ∈ users, u.email ≠ text := by
  cases email with
  | none => exact .inl (Except.ok.inj h).symm
  | some email =>
      rw [changedEmail] at h
      split at h
      case isTrue => cases h
      case isFalse hfree =>
        obtain rfl := Except.ok.inj h
        by_cases hsame : current_user.email = email.text
        · exact .inl hsame.symm
        · have hnone : userByEmail users email.text = none := by
            simpa [hsame] using hfree
          exact .inr ⟨email.at_mem, userByEmail_eq_none hnone⟩

theorem changedUser_eq_ok {salt : Nat} {updates : UserUpdate}
    (h : changedUser lib salt users current_user updates = .ok user) :
    ∃ password_hash, changedPassword lib salt current_user updates = .ok password_hash ∧
      changedUsername users current_user updates.username = .ok user.username ∧
      changedEmail users current_user updates.email = .ok user.email ∧
      user = { current_user with
        username := user.username, email := user.email, password_hash := password_hash } := by
  rw [changedUser] at h
  cases hpassword : changedPassword lib salt current_user updates with
  | error e => simp [hpassword, bind, Except.bind] at h
  | ok password_hash =>
      cases husername : changedUsername users current_user updates.username with
      | error e => simp [hpassword, husername, bind, Except.bind] at h
      | ok username =>
          cases hemail : changedEmail users current_user updates.email with
          | error e => simp [hpassword, husername, hemail, bind, Except.bind] at h
          | ok email =>
              simp only [hpassword, husername, hemail, bind, Except.bind, pure, Except.pure,
                Except.ok.injEq] at h
              subst h
              exact ⟨password_hash, rfl, rfl, rfl, rfl⟩

theorem changedUser_id {salt : Nat} {updates : UserUpdate}
    (h : changedUser lib salt users current_user updates = .ok user) :
    user.id = current_user.id := by
  obtain ⟨password_hash, -, -, -, huser⟩ := changedUser_eq_ok h
  rw [huser]

/-- An accepted update keeps the columns unique. -/
theorem changedUser_unique (hids : Table.Unique (·.id) users)
    (husernames : Table.Unique (·.username) users) (hemails : Table.Unique (·.email) users)
    (hcurrent : current_user ∈ users) {salt : Nat} {updates : UserUpdate}
    (h : changedUser lib salt users current_user updates = .ok user) :
    Table.Unique (·.username) (Table.replace (·.id) user users) ∧
      Table.Unique (·.email) (Table.replace (·.id) user users) := by
  obtain ⟨_, -, husername, hemail, -⟩ := changedUser_eq_ok h
  have hother : ∀ u ∈ users, u.id ≠ user.id → u ≠ current_user := by
    rintro u hu hne rfl
    exact hne (changedUser_id h).symm
  constructor
  · refine husernames.replace hids fun u hu hne heq => ?_
    rcases changedUsername_ok husername with hsame | ⟨-, hfree⟩
    · exact hother u hu hne (husernames.eq hu hcurrent (heq.trans hsame))
    · exact hfree u hu heq
  · refine hemails.replace hids fun u hu hne heq => ?_
    rcases changedEmail_ok hemail with hsame | ⟨-, hfree⟩
    · exact hother u hu hne (hemails.eq hu hcurrent (heq.trans hsame))
    · exact hfree u hu heq

end

/-! ## The invariant -/

theorem identified_empty : Identified .empty where
  serial := fun user huser => by cases huser
  ids := Table.unique_nil _
  usernames := Table.unique_nil _
  emails := Table.unique_nil _
  username := fun user huser => by cases huser
  email := fun user huser => by cases huser

theorem Identified.of_eq (h : Identified s) (husers : t.users = s.users)
    (hserial : t.user_serial = s.user_serial) : Identified t := by
  obtain ⟨serial, ids, usernames, emails, username, email⟩ := h
  constructor <;> rw [husers]
  · rwa [hserial]
  all_goals assumption

theorem Identified.registered (h : Identified s) {new_user : UserCreate}
    (husername : userByUsername s.users new_user.username.text = none)
    (hemail : userByEmail s.users new_user.email.text = none) :
    Identified (s.registered lib env new_user) where
  serial := by
    intro user huser
    rcases List.mem_append.mp huser with huser | huser
    · exact (h.serial user huser).trans (Int.lt_succ _)
    · rw [List.mem_singleton.mp huser]
      exact Int.lt_succ _
  ids := h.ids.append fun user huser => (h.serial user huser).ne
  usernames := h.usernames.append (userByUsername_eq_none husername)
  emails := h.emails.append (userByEmail_eq_none hemail)
  username := by
    intro user huser
    rcases List.mem_append.mp huser with huser | huser
    · exact h.username user huser
    · rw [List.mem_singleton.mp huser]
      exact new_user.username.at_not_mem
  email := by
    intro user huser
    rcases List.mem_append.mp huser with huser | huser
    · exact h.email user huser
    · rw [List.mem_singleton.mp huser]
      exact new_user.email.at_mem

theorem Identified.updated (h : Identified s) {token : Option Token} {current_user user : User}
    {salt : Nat} {updates : UserUpdate}
    (hauth : getCurrentUser s.users env.now token = .ok current_user)
    (hchanged : changedUser lib salt s.users current_user updates = .ok user) :
    Identified (s.setUser user) := by
  obtain ⟨_, payload, -, -, hfound⟩ := getCurrentUser_eq_ok.mp hauth
  obtain ⟨hcurrent, -⟩ := userById_eq_some hfound
  obtain ⟨_, -, husername, hemail, -⟩ := changedUser_eq_ok hchanged
  have hunique := changedUser_unique h.ids h.usernames h.emails hcurrent hchanged
  constructor
  · intro u hu
    rcases Table.mem_replace hu with rfl | ⟨hu, -⟩
    · rw [changedUser_id hchanged]
      exact h.serial current_user hcurrent
    · exact h.serial u hu
  · exact h.ids.replace_id
  · exact hunique.1
  · exact hunique.2
  · intro u hu
    rcases Table.mem_replace hu with rfl | ⟨hu, -⟩
    · rcases changedUsername_ok husername with hsame | ⟨hat, -⟩
      · rw [hsame]
        exact h.username current_user hcurrent
      · exact hat
    · exact h.username u hu
  · intro u hu
    rcases Table.mem_replace hu with rfl | ⟨hu, -⟩
    · rcases changedEmail_ok hemail with hsame | ⟨hat, -⟩
      · rw [hsame]
        exact h.email current_user hcurrent
      · exact hat
    · exact h.email u hu

theorem Identified.removed (h : Identified s) (id : Int) : Identified (s.removeUser id) where
  serial := fun user huser => h.serial user (List.mem_of_mem_filter huser)
  ids := h.ids.filter _
  usernames := h.usernames.filter _
  emails := h.emails.filter _
  username := fun user huser => h.username user (List.mem_of_mem_filter huser)
  email := fun user huser => h.email user (List.mem_of_mem_filter huser)

/-- The row after an operator has looked at it. -/
def User.promoted (user : User) (id : Int) : User :=
  if user.id = id then { user with user_type := .ADMIN } else user

section

variable (user : User) (id : Int)

theorem User.column_promoted {α : Type} (column : User → α)
    (hcolumn : column { user with user_type := .ADMIN } = column user) :
    column (user.promoted id) = column user := by
  unfold User.promoted
  split
  · exact hcolumn
  · rfl

@[simp] theorem User.promoted_id : (user.promoted id).id = user.id :=
  column_promoted user id (·.id) rfl

@[simp] theorem User.promoted_username : (user.promoted id).username = user.username :=
  column_promoted user id (·.username) rfl

@[simp] theorem User.promoted_email : (user.promoted id).email = user.email :=
  column_promoted user id (·.email) rfl

end

theorem promote_users (s : Store) (id : Int) :
    (s.promote id).users = s.users.map (·.promoted id) := rfl

theorem Identified.promote (h : Identified s) (id : Int) : Identified (s.promote id) where
  serial := by
    show ∀ user ∈ (s.promote id).users, user.id < s.user_serial
    simpa [promote_users] using h.serial
  ids := h.ids.map fun u => u.promoted_id id
  usernames := h.usernames.map fun u => u.promoted_username id
  emails := h.emails.map fun u => u.promoted_email id
  username := by simpa [promote_users] using h.username
  email := by simpa [promote_users] using h.email

theorem Identified.effect (h : Identified s) {request : Request}
    (heffect : Effect lib env s request t) : Identified t := by
  cases heffect with
  | unchanged => exact h
  | registered hvalid husername hemail => exact h.registered husername hemail
  | updated hauth hvalid hchanged => exact h.updated hauth hchanged
  | userDeleted hauth => exact h.removed _
  | submission hauth houtcome => cases houtcome <;> exact h.of_eq rfl rfl
  | _ => exact h.of_eq rfl rfl

theorem identified_invariant : StoreInvariant lib Identified where
  empty := identified_empty
  effect := fun h heffect => h.effect heffect
  promote := fun id h => h.promote id
  jobs := fun _ h => h.of_eq rfl rfl
  result := fun _ _ h => h.of_eq rfl rfl

theorem identified_of_reachable (h : (system lib cfg).Reachable st) : Identified st.store :=
  identified_invariant.of_reachable h

/-! ## The result -/

theorem Identified.eq_of_hasLogin (h : Identified s) {identifier : Str} {u v : User}
    (hu : u ∈ s.users) (hv : v ∈ s.users) (hul : u.HasLogin identifier)
    (hvl : v.HasLogin identifier) : u = v := by
  rcases hul with rfl | rfl
  · rcases hvl with hv' | hv'
    · exact h.usernames.eq hu hv hv'.symm
    · exact absurd (hv' ▸ h.email v hv) (h.username u hu)
  · rcases hvl with hv' | hv'
    · exact absurd (hv' ▸ h.email u hu) (h.username v hv)
    · exact h.emails.eq hu hv hv'.symm

/-- **Login identifiers are unambiguous** in every reachable store, and a login gives out
tokens of the one user who has the identifier, if the password verifies against its hash. -/
theorem identifiers_unambiguous (h : (system lib cfg).Reachable st) :
    (∀ identifier, ∀ u ∈ st.store.users, ∀ v ∈ st.store.users,
      u.HasLogin identifier → v.HasLogin identifier → u = v) ∧
    Table.Unique (·.id) st.store.users ∧
    (∀ u ∈ st.store.users, ∀ v ∈ st.store.users, u.username ≠ v.email) ∧
    ∀ env identifier password tokens,
      (login lib cfg env identifier password st.store).1 = .ok tokens →
        ∃ user ∈ st.store.users, user.HasLogin identifier ∧
          (∀ v ∈ st.store.users, v.HasLogin identifier → v = user) ∧
          lib.verify password user.password_hash = true ∧
          tokens = ⟨createAccessToken cfg env.now ⟨user.id⟩,
            createRefreshToken cfg env.now ⟨user.id⟩⟩ := by
  have hst := identified_of_reachable h
  refine ⟨fun identifier u hu v hv => hst.eq_of_hasLogin hu hv, hst.ids, ?_, ?_⟩
  · intro u hu v hv heq
    exact absurd (heq ▸ hst.email v hv) (hst.username u hu)
  · intro env identifier password tokens htokens
    obtain ⟨user, hfound, hverify, rfl⟩ := login_ok tokens htokens
    obtain ⟨huser, hlogin⟩ := userByLogin_eq_some hfound
    exact ⟨user, huser, hlogin, fun v hv hvl => hst.eq_of_hasLogin hv huser hvl hlogin,
      hverify, rfl⟩

def accountsRun : List Action :=
  [.request (quiet 1 CreateProblem.zeros) (.register ann),
    .request (quiet 2 CreateProblem.zeros)
      (.register { ann with username := "bob".toList, email := "bob@x".toList }),
    .request (quiet 3 CreateProblem.zeros) (.login "bob".toList ann.password),
    .request (quiet 4 CreateProblem.zeros)
      (.updateCurrentUser (some (createAccessToken halfHour 3 ⟨2⟩))
        ⟨none, some "b@x".toList, none, none⟩)]

theorem identifiers_unambiguous_accounts :
    ∃ st, (system plain halfHour).Reachable st ∧
      st.store.users.map (·.email) = ["ann@x".toList, "b@x".toList] ∧
      ∀ u ∈ st.store.users, ∀ v ∈ st.store.users,
        u.HasLogin "b@x".toList → v.HasLogin "b@x".toList → u = v := by
  obtain ⟨st, hpath, hemails⟩ :=
    System.exists_path (system plain halfHour) (fun _ _ => True) start accountsRun
      (fun st => st.store.users.map (·.email) = ["ann@x".toList, "b@x".toList]) (by decide)
  have hreach : (system plain halfHour).Reachable st := ⟨_, rfl, hpath⟩
  exact ⟨st, hreach, hemails, (identifiers_unambiguous hreach).1 _⟩

end ByteBattles.Api
