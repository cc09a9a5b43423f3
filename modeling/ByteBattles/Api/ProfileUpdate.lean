import ByteBattles.Api.Identifiers
import ByteBattles.Lib.UnitOfWork

/-!
# Profile updates

`update_current_user` over the session of its request: the fields are assigned to the
loaded user one after the other, with checks in between that raise, and a commit at the end.
-/

namespace ByteBattles.Api

open ByteBattles.Lib

/-! ## The route over a session -/

inductive UpdateCall
  | usernameQuery
  | emailQuery
  | commit
  | refresh
  deriving DecidableEq, Repr

structure UpdateEnvironment where
  salt : Nat
  raises : UpdateCall → Bool

abbrev UserWork (α : Type) := Session.Work Error User α

def UpdateEnvironment.call (env : UpdateEnvironment) (c : UpdateCall) : UserWork Unit :=
  Handler.refuseIf (env.raises c = true) .server

structure UniqueColumn where
  get : User → Str
  set : Str → User → User
  query : UpdateCall
  detail : String
  set_get : ∀ user, set (get user) user = user

def usernameColumn : UniqueColumn where
  get := (·.username)
  set := fun text user => { user with username := text }
  query := .usernameQuery
  detail := "username already in use"
  set_get := fun _ => rfl

def emailColumn : UniqueColumn where
  get := (·.email)
  set := fun text user => { user with email := text }
  query := .emailQuery
  detail := "email already in use"
  set_get := fun _ => rfl

/-- The query is made only for another value than that of the object; it does not see what
has been assigned (`autoflush=False`). -/
def UniqueColumn.refuseTaken (column : UniqueColumn) (env : UpdateEnvironment) (text : Str) :
    UserWork Unit := do
  let s ← Handler.read
  if column.get s.object = text then pure ()
  else do
    env.call column.query
    Handler.refuseIf (s.rows.find? (column.get · = text)).isSome (.http 409 column.detail)

def UniqueColumn.assign (column : UniqueColumn) (env : UpdateEnvironment) (text : Option Str) :
    UserWork Unit :=
  match truthy text with
  | none => pure ()
  | some text => do
      column.refuseTaken env text
      Session.assign (column.set text)

def assignPassword (lib : Libraries) (env : UpdateEnvironment) (updates : UserUpdate) :
    UserWork Unit :=
  match truthy (updates.password.map (·.text)), truthy updates.conf_password with
  | some password, some conf_password => do
      Handler.refuseIf (password ≠ conf_password)
        (.http 400 "confirm password and given password don't match")
      Session.assign fun user => { user with password_hash := lib.hash env.salt password }
  | none, none => pure ()
  | _, _ => Handler.raise (.http 400 "Bad Request")

/-- What `update_current_user` does before its commit. -/
def assignUpdates (lib : Libraries) (env : UpdateEnvironment) (updates : UserUpdate) :
    UserWork Unit := do
  assignPassword lib env updates
  usernameColumn.assign env (updates.username.map (·.text))
  emailColumn.assign env (updates.email.map (·.text))

def UniqueColumns (users : List User) : Prop :=
  Table.Unique (·.username) users ∧ Table.Unique (·.email) users

instance : DecidablePred UniqueColumns := fun _ =>
  inferInstanceAs (Decidable (List.Nodup _ ∧ List.Nodup _))

/-- `update_current_user`, with the table as the database has it when the session is
closed. -/
def updateInSession (lib : Libraries) (env : UpdateEnvironment) (updates : UserUpdate) :
    UserWork UserResponse := do
  assignUpdates lib env updates
  env.call .commit
  Session.commit (·.id) UniqueColumns .server
  env.call .refresh
  let s ← Handler.read
  return s.object.response

/-! ## What the session buffers -/

variable {lib : Libraries} {env : UpdateEnvironment} {updates : UserUpdate}
  {users : List User} {current_user : User}

theorem UniqueColumn.buffers_assign (column : UniqueColumn) (env : UpdateEnvironment)
    (text : Option Str) : Session.Buffers (column.assign env text) := by
  unfold UniqueColumn.assign
  split
  · exact Session.buffers_pure ()
  · apply Session.Buffers.bind
    · apply Session.buffers_read.bind
      intro s
      split
      · exact Session.buffers_pure ()
      · exact (Session.buffers_refuseIf _ _).bind fun _ => Session.buffers_refuseIf _ _
    · exact fun _ => Session.buffers_assign _

theorem buffers_assignPassword (lib : Libraries) (env : UpdateEnvironment)
    (updates : UserUpdate) : Session.Buffers (assignPassword lib env updates) := by
  unfold assignPassword
  split
  · exact (Session.buffers_refuseIf _ _).bind fun _ => Session.buffers_assign _
  · exact Session.buffers_pure ()
  · exact Session.buffers_raise _

theorem buffers_assignUpdates (lib : Libraries) (env : UpdateEnvironment)
    (updates : UserUpdate) : Session.Buffers (assignUpdates lib env updates) :=
  (buffers_assignPassword lib env updates).bind fun _ =>
    (usernameColumn.buffers_assign env _).bind fun _ => emailColumn.buffers_assign env _

/-! ## What the session assigns -/

def UniqueColumn.changed (column : UniqueColumn) (users : List User) (current_user : User)
    (text : Option Str) : Except Error Str :=
  match truthy text with
  | none => .ok (column.get current_user)
  | some text =>
      if column.get current_user ≠ text ∧ (users.find? (column.get · = text)).isSome then
        .error (.http 409 column.detail)
      else .ok text

theorem truthy_of_ne_nil {text : Str} (h : text ≠ []) : truthy (some text) = some text := by
  simp [truthy, h]

theorem Username.ne_nil (username : Username) : username.text ≠ [] := by
  intro hnil
  have hmatched := username.matched
  rw [hnil] at hmatched
  exact absurd hmatched (by decide)

theorem Password.ne_nil (password : Password) : password.text ≠ [] := by
  intro hnil
  have hmatched := password.matched
  rw [hnil] at hmatched
  exact absurd hmatched (by decide)

theorem EmailStr.ne_nil (email : EmailStr) : email.text ≠ [] :=
  List.ne_nil_of_mem email.at_mem

theorem changedUsername_eq (users : List User) (current_user : User)
    (username : Option Username) :
    changedUsername users current_user username =
      usernameColumn.changed users current_user (username.map (·.text)) := by
  cases username with
  | none => rfl
  | some username =>
      simp only [UniqueColumn.changed, Option.map_some, truthy_of_ne_nil username.ne_nil]
      rfl

theorem changedEmail_eq (users : List User) (current_user : User) (email : Option EmailStr) :
    changedEmail users current_user email =
      emailColumn.changed users current_user (email.map (·.text)) := by
  cases email with
  | none => rfl
  | some email =>
      simp only [UniqueColumn.changed, Option.map_some, truthy_of_ne_nil email.ne_nil]
      rfl

/-- A query raises, or the work raises what `changed` does or assigns what it returns. -/
def Assigns {α : Type} (raised : Prop) (changed : Except Error α) (f : α → User)
    (rows : List User) (r : Except Error Unit) (t : Session User) : Prop :=
  r = .error .server ∧ raised ∨
    match changed with
    | .error e => r = .error e
    | .ok a => r = .ok () ∧ t = ⟨rows, f a⟩

section

variable {α β : Type} {raised : Prop} {changed : Except Error α} {f : α → User}
  {rows : List User} {s : Session User}

theorem Assigns.bind {m : UserWork Unit} {g : Unit → UserWork Unit} {next : α → Except Error β}
    {f' : β → User} (hm : m.Ends s (Assigns raised changed f rows))
    (hg : ∀ a, (g ()).Ends ⟨rows, f a⟩ (Assigns raised (next a) f' rows)) :
    (m >>= g).Ends s (Assigns raised (changed >>= next) f' rows) := by
  apply Handler.Ends.bind hm
  · rintro e t (hraised | h)
    · exact .inl hraised
    · cases changed with
      | error e' => exact .inr h
      | ok a => cases h.1
  · rintro _ t (hraised | h)
    · cases hraised.1
    · cases changed with
      | error e' => cases h
      | ok a =>
          obtain rfl := h.2
          exact hg a

theorem Assigns.pure_bind {r : Except Error Unit} {t : Session User}
    (h : Assigns raised changed f rows r t) :
    Assigns raised (changed >>= fun a => pure (f a)) id rows r t := by
  cases changed with
  | error e => exact h
  | ok a => exact h

end

theorem UniqueColumn.refuseTaken_ends (column : UniqueColumn) (text : Str) (s : Session User) :
    (column.refuseTaken env text).Ends s fun r t =>
      t = s ∧ (r = .error .server ∧ env.raises column.query = true ∨
        r = if column.get s.object ≠ text ∧ (s.rows.find? (column.get · = text)).isSome then
          .error (.http 409 column.detail) else .ok ()) := by
  unfold UniqueColumn.refuseTaken
  apply Handler.Ends.read_bind
  by_cases hsame : column.get s.object = text
  · rw [if_pos hsame]
    exact Handler.Ends.pure ⟨rfl, .inr (by simp [hsame])⟩
  · rw [if_neg hsame]
    refine Handler.Ends.refuseIf_bind (fun hraises => ⟨rfl, .inl ⟨rfl, hraises⟩⟩) fun _ => ?_
    unfold Handler.refuseIf
    by_cases htaken : (s.rows.find? (column.get · = text)).isSome
    · rw [if_pos htaken]
      exact Handler.Ends.raise ⟨rfl, .inr (by rw [if_pos ⟨hsame, htaken⟩])⟩
    · rw [if_neg htaken]
      exact Handler.Ends.pure ⟨rfl, .inr (by rw [if_neg fun h => htaken h.2])⟩

theorem UniqueColumn.assign_ends (column : UniqueColumn) (text : Option Str) (s : Session User)
    {raised : Prop} (hraised : env.raises column.query = true → raised) :
    (column.assign env text).Ends s
      (Assigns raised (column.changed s.rows s.object text) (column.set · s.object) s.rows) := by
  unfold UniqueColumn.assign UniqueColumn.changed
  cases truthy text with
  | none =>
      refine Handler.Ends.pure (.inr ⟨rfl, ?_⟩)
      simp only [column.set_get]
  | some text =>
      apply Handler.Ends.bind (column.refuseTaken_ends text s)
      · rintro e t ⟨-, ⟨hserver, hquery⟩ | htaken⟩
        · exact .inl ⟨hserver, hraised hquery⟩
        · right
          dsimp only
          split at htaken
          case isTrue h =>
            rw [if_pos h]
            exact htaken
          case isFalse => cases htaken
      · rintro _ t ⟨rfl, hquery | hfree⟩
        · cases hquery.1
        · apply Handler.Ends.write
          right
          dsimp only
          split at hfree
          case isTrue => cases hfree
          case isFalse h =>
            rw [if_neg h]
            exact ⟨rfl, rfl⟩

theorem assignPassword_ends (s : Session User) (raised : Prop) :
    (assignPassword lib env updates).Ends s
      (Assigns raised (changedPassword lib env.salt s.object updates)
        (fun password_hash => { s.object with password_hash := password_hash }) s.rows) := by
  unfold assignPassword changedPassword
  cases truthy (updates.password.map (·.text)) with
  | none =>
      cases truthy updates.conf_password with
      | none => exact Handler.Ends.pure (.inr ⟨rfl, rfl⟩)
      | some conf_password => exact Handler.Ends.raise (.inr rfl)
  | some password =>
      cases truthy updates.conf_password with
      | none => exact Handler.Ends.raise (.inr rfl)
      | some conf_password =>
          refine Handler.Ends.refuseIf_bind (fun hne => .inr ?_) fun heq =>
            Handler.Ends.write (.inr ?_)
          · simp only [if_pos hne]
          · simp only [if_neg heq, true_and]

/-- The assignments make the row that the requested changes describe, unless a query raises. -/
theorem assignUpdates_ends (s : Session User) :
    (assignUpdates lib env updates).Ends s
      (Assigns (env.raises .usernameQuery = true ∨ env.raises .emailQuery = true)
        (changedUser lib env.salt s.rows s.object updates) id s.rows) := by
  unfold assignUpdates changedUser
  simp only [changedUsername_eq, changedEmail_eq]
  apply Assigns.bind (assignPassword_ends s _)
  intro password_hash
  apply Assigns.bind (usernameColumn.assign_ends _ _ .inl)
  intro username
  exact (emailColumn.assign_ends _ _ .inr).mono fun _ _ => Assigns.pure_bind

theorem assignUpdates_run {s : Session User} (husername : env.raises .usernameQuery = false)
    (hemail : env.raises .emailQuery = false) :
    match changedUser lib env.salt s.rows s.object updates with
    | .error e => ∃ t, assignUpdates lib env updates s = (.error e, t) ∧ t.rows = s.rows
    | .ok user => assignUpdates lib env updates s = (.ok (), ⟨s.rows, user⟩) := by
  have hrows := buffers_assignUpdates lib env updates s
  rcases @assignUpdates_ends lib env updates s with ⟨-, hraised⟩ | h
  · simp [husername, hemail] at hraised
  · cases hchanged : changedUser lib env.salt s.rows s.object updates with
    | error e =>
        rw [hchanged] at h
        exact ⟨_, Prod.ext h rfl, hrows⟩
    | ok user =>
        rw [hchanged] at h
        exact Prod.ext h.1 h.2

/-! ## The route of the service -/

/-- The calls of the route, with one answer for all queries. -/
def Environment.update (env : Environment) : UpdateEnvironment where
  salt := env.salt
  raises
    | .usernameQuery | .emailQuery => env.raises .query
    | .commit => env.raises .commit
    | .refresh => env.raises .refresh

theorem Environment.update_commit (env : Environment) :
    env.update.raises .commit = env.raises .commit := rfl

theorem Environment.update_refresh (env : Environment) :
    env.update.raises .refresh = env.raises .refresh := rfl

/-- In a store that keeps its columns unique, the route of the service does what the route
over a session does. -/
theorem updateCurrentUser_eq {env : Environment} {s : Store} (hs : Identified s)
    (hcurrent : current_user ∈ s.users) (hquery : env.raises .query = false)
    (body : UserUpdateBody) :
    updateCurrentUser lib env body current_user s =
      match body.validate lib with
      | none => (.error .unprocessable, s)
      | some updates =>
          let (r, t) := updateInSession lib env.update updates ⟨s.users, current_user⟩
          (r, { s with users := t.rows }) := by
  unfold updateCurrentUser
  cases body.validate lib with
  | none => rfl
  | some updates =>
      have hrun := @assignUpdates_run lib env.update updates ⟨s.users, current_user⟩ hquery hquery
      simp only [Handler.bind_apply, Handler.pure_apply, Handler.read_apply,
        Handler.ofExcept_apply, Handler.refuseIf_apply, Handler.write_apply, parsed,
        updateInSession, Environment.call, UpdateEnvironment.call, Session.commit_apply]
      cases hchanged : changedUser lib env.salt s.users current_user updates with
      | error e =>
          replace hrun : ∃ t, assignUpdates lib env.update updates ⟨s.users, current_user⟩ =
              (.error e, t) ∧ t.rows = s.users := by
            simpa only [Environment.update, hchanged] using hrun
          obtain ⟨t, hrun, hrows⟩ := hrun
          simp only [hrun, hrows]
      | ok user =>
          replace hrun : assignUpdates lib env.update updates ⟨s.users, current_user⟩ =
              (.ok (), ⟨s.users, user⟩) := by
            simpa only [Environment.update, hchanged] using hrun
          have hunique : UniqueColumns (Table.replace (·.id) user s.users) :=
            changedUser_unique hs.ids hs.usernames hs.emails hcurrent hchanged
          simp only [hrun, Environment.update_commit, Environment.update_refresh]
          by_cases hcommit : env.raises .commit = true
          · simp only [hcommit, if_true]
          · by_cases hrefresh : env.raises .refresh = true
            · simp only [hcommit, hrefresh, hunique, if_true, Bool.false_eq_true, if_false]
              rfl
            · simp only [hcommit, hrefresh, hunique, if_true, Bool.false_eq_true, if_false]
              rfl

/-! ## The result -/

def UserUpdate.applied (updates : UserUpdate) (lib : Libraries) (salt : Nat) (user : User) :
    User where
  id := user.id
  username := (truthy (updates.username.map (·.text))).getD user.username
  email := (truthy (updates.email.map (·.text))).getD user.email
  password_hash :=
    ((truthy (updates.password.map (·.text))).map (lib.hash salt)).getD user.password_hash
  is_verified := user.is_verified
  created_at := user.created_at
  user_type := user.user_type

structure Updated (lib : Libraries) (salt : Nat) (updates : UserUpdate) (current_user : User)
    (users users' : List User) : Prop where
  rows : users' = users.map fun user =>
    if user = current_user then updates.applied lib salt user else user
  usernames : Table.Unique (·.username) users'
  emails : Table.Unique (·.email) users'
  confirmed : ∀ password, updates.password = some password →
    updates.conf_password = some password.text

theorem UniqueColumn.changed_eq_ok {column : UniqueColumn} {text : Option Str} {value : Str}
    (h : column.changed users current_user text = .ok value) :
    value = (truthy text).getD (column.get current_user) := by
  unfold UniqueColumn.changed at h
  cases htext : truthy text with
  | none =>
      rw [htext] at h
      exact (Except.ok.inj h).symm
  | some text =>
      simp only [htext] at h
      split at h
      case isTrue => cases h
      case isFalse => exact (Except.ok.inj h).symm

theorem changedPassword_eq_ok {salt : Nat} {password_hash : Str}
    (h : changedPassword lib salt current_user updates = .ok password_hash) :
    password_hash = ((truthy (updates.password.map (·.text))).map (lib.hash salt)).getD
        current_user.password_hash ∧
      truthy (updates.password.map (·.text)) = truthy updates.conf_password := by
  unfold changedPassword at h
  cases hpassword : truthy (updates.password.map (·.text)) with
  | none =>
      cases hconf : truthy updates.conf_password with
      | none =>
          simp only [hpassword, hconf] at h
          exact ⟨(Except.ok.inj h).symm, rfl⟩
      | some conf_password => simp [hpassword, hconf] at h
  | some password =>
      cases hconf : truthy updates.conf_password with
      | none => simp [hpassword, hconf] at h
      | some conf_password =>
          simp only [hpassword, hconf] at h
          split at h
          case isTrue => cases h
          case isFalse heq => exact ⟨(Except.ok.inj h).symm, by rw [not_not.mp heq]⟩

theorem changedUser_applied {salt : Nat} {user : User}
    (h : changedUser lib salt users current_user updates = .ok user) :
    user = updates.applied lib salt current_user := by
  obtain ⟨password_hash, hpassword, husername, hemail, huser⟩ := changedUser_eq_ok h
  rw [changedUsername_eq] at husername
  rw [changedEmail_eq] at hemail
  rw [huser, (changedPassword_eq_ok hpassword).1, UniqueColumn.changed_eq_ok husername,
    UniqueColumn.changed_eq_ok hemail]
  rfl

theorem changedUser_confirmed {salt : Nat} {user : User}
    (h : changedUser lib salt users current_user updates = .ok user) (password : Password)
    (hpassword : updates.password = some password) :
    updates.conf_password = some password.text := by
  obtain ⟨_, hchanged, -⟩ := changedUser_eq_ok h
  have hconf := (changedPassword_eq_ok hchanged).2
  rw [hpassword, Option.map_some, truthy_of_ne_nil password.ne_nil] at hconf
  exact (Option.filter_eq_some_iff.mp hconf.symm).1

/-- What the session holds at its commit. -/
theorem assigned_ends (s : Session User) :
    (assignUpdates lib env updates >>= fun _ => env.call .commit).Ends s fun r t =>
      r = .ok () → changedUser lib env.salt s.rows s.object updates = .ok t.object := by
  apply Handler.Ends.bind (assignUpdates_ends s)
  · intro e t _ h
    cases h
  · rintro _ t (hraised | hassigned)
    · cases hraised.1
    · cases hchanged : changedUser lib env.salt s.rows s.object updates with
      | error e =>
          rw [hchanged] at hassigned
          cases hassigned
      | ok user =>
          rw [hchanged] at hassigned
          obtain rfl := hassigned.2
          unfold Handler.Ends UpdateEnvironment.call
          rw [Handler.refuseIf_apply]
          exact fun _ => rfl

theorem replace_applied (hids : Table.Unique (·.id) users) (hcurrent : current_user ∈ users)
    (salt : Nat) :
    Table.replace (·.id) (updates.applied lib salt current_user) users =
      users.map fun user => if user = current_user then updates.applied lib salt user else user := by
  apply List.map_congr_left
  intro user huser
  by_cases hid : user.id = current_user.id
  · have hsame : user = current_user := hids.eq huser hcurrent hid
    rw [if_pos hsame, hsame]
    exact if_pos rfl
  · have hother : user ≠ current_user := fun hsame => hid (hsame ▸ rfl)
    rw [if_neg hother]
    exact if_neg hid

/-- **Atomic profile updates**: `update_current_user` ends with an error and leaves the table
as it was, or it replaces exactly the requested fields of the current user, and then
succeeds unless `db.refresh` raises. -/
theorem update_atomic (hids : Table.Unique (·.id) users) (hcurrent : current_user ∈ users) :
    (updateInSession lib env updates).Ends ⟨users, current_user⟩ fun r t =>
      (∃ e, r = .error e) ∧ t.rows = users ∨
        Updated lib env.salt updates current_user users t.rows ∧
          (env.raises .refresh = false →
            r = .ok (updates.applied lib env.salt current_user).response) := by
  have hbuffers : Session.Buffers
      (assignUpdates lib env updates >>= fun _ => env.call .commit) :=
    (buffers_assignUpdates lib env updates).bind fun _ => Session.buffers_refuseIf _ _
  have hcommit := hbuffers.commit (·.id) UniqueColumns Error.server ⟨users, current_user⟩
  unfold updateInSession
  rw [← Handler.bind_assoc, ← Handler.bind_assoc]
  apply Handler.Ends.bind hcommit
  · rintro e t (hsame | hreplaced)
    · exact .inl ⟨⟨e, rfl⟩, hsame.2⟩
    · cases hreplaced.1
  · rintro _ t (herror | ⟨-, hrun, hrows, husernames, hemails⟩)
    · obtain ⟨⟨e, he⟩, -⟩ := herror
      cases he
    · have hassigned := (assigned_ends ⟨users, current_user⟩).of_eq hrun
      have hchanged : changedUser lib env.salt users current_user updates = .ok t.object :=
        hassigned rfl
      have happlied := changedUser_applied hchanged
      have hupdated : Updated lib env.salt updates current_user users t.rows := by
        refine ⟨?_, husernames, hemails, changedUser_confirmed hchanged⟩
        rw [hrows, happlied]
        exact replace_applied hids hcurrent env.salt
      refine Handler.Ends.refuseIf_bind (fun hraises => ?_) fun _ => ?_
      · exact .inr ⟨hupdated, fun hreturns => absurd hraises (by simp [hreturns])⟩
      · exact .inr ⟨hupdated, fun _ => happlied ▸ rfl⟩

def bobRow : User := { annRow with id := 2, username := "bob".toList, email := "bob@x".toList }

def newName : UserUpdate where
  username := some ⟨"bobby".toList, by decide⟩
  email := none
  password := some ⟨"passw1rd".toList, by decide⟩
  conf_password := some "passw1rd".toList

theorem update_atomic_newName :
    Updated plain 0 newName bobRow [annRow, bobRow]
      (updateInSession plain ⟨0, fun _ => false⟩ newName ⟨[annRow, bobRow], bobRow⟩).2.rows := by
  have hids : Table.Unique (·.id) [annRow, bobRow] := by
    unfold Table.Unique
    decide
  have hends := @update_atomic plain ⟨0, fun _ => false⟩ newName [annRow, bobRow] bobRow hids
    (by simp)
  rcases hends with ⟨⟨e, herror⟩, -⟩ | hupdated
  · have hok : (updateInSession plain ⟨0, fun _ => false⟩ newName
        ⟨[annRow, bobRow], bobRow⟩).1.toOption.isSome = true := by decide
    rw [herror] at hok
    cases hok
  · exact hupdated.1

end ByteBattles.Api
