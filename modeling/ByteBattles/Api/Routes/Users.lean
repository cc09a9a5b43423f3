import ByteBattles.Api.Calls
import ByteBattles.Api.Schemas
import ByteBattles.Lib.Table

/-!
# Accounts

The routes of `api/app/routes/auth.py` and `users.py`.
-/

namespace ByteBattles.Api

open ByteBattles.Lib

/-! ## The table of users -/

def User.response (user : User) : UserResponse where
  username := user.username
  email := user.email
  is_verified := user.is_verified
  created_at := user.created_at

def Store.newUser (s : Store) (now : Nat) (username email password_hash : Str) : User where
  id := s.user_serial
  username := username
  email := email
  password_hash := password_hash
  is_verified := false
  created_at := now
  user_type := .USER

def Store.addUser (s : Store) (user : User) : Store :=
  { s with users := s.users ++ [user], user_serial := s.user_serial + 1 }

def Store.setUser (s : Store) (user : User) : Store :=
  { s with users := Table.replace (·.id) user s.users }

def Store.removeUser (s : Store) (id : Int) : Store :=
  { s with
    users := s.users.filter (·.id ≠ id)
    submissions := s.submissions.filter (·.user_id ≠ id) }

/-- The user with the identifier as username, else the one with it as email. -/
def userByLogin (users : List User) (identifier : Str) : Option User :=
  (userByUsername users identifier).or (userByEmail users identifier)

/-! ## `auth.py` -/

def register (lib : Libraries) (env : Environment) (body : UserCreateBody) :
    Route UserResponse := do
  let new_user ← parsed (body.validate lib)
  Handler.refuseIf (new_user.password.text ≠ new_user.conf_password)
    (.http 400 "confirm password and given password don't match")
  env.call .query
  let s ← Handler.read
  Handler.refuseIf ((userByUsername s.users new_user.username.text).isSome ∨
      (userByEmail s.users new_user.email.text).isSome)
    (.http 409 "user with this username or email already exists")
  let user := s.newUser env.now new_user.username.text new_user.email.text
    (lib.hash env.salt new_user.password.text)
  env.call .commit
  Handler.write (·.addUser user)
  env.call .refresh
  return user.response

def invalidLogin : Error := .http 401 "Invalid username or password"

/-- The form is rejected when a field of it is empty. -/
def login (lib : Libraries) (cfg : Config) (env : Environment) (username password : Str) :
    Route LoginResponse := do
  Handler.refuseIf (username = [] ∨ password = []) .unprocessable
  env.call .query
  let s ← Handler.read
  match userByLogin s.users username with
  | none => Handler.raise invalidLogin
  | some user => do
      Handler.refuseIf (lib.verify password user.password_hash = false) invalidLogin
      return ⟨createAccessToken cfg env.now ⟨user.id⟩, createRefreshToken cfg env.now ⟨user.id⟩⟩

def refresh (cfg : Config) (env : Environment) (refresh_token : Token) : Route Token :=
  Handler.ofExcept (refreshAccessToken cfg env.now refresh_token)

/-! ## `users.py` -/

/-- A text that is missing or empty counts as false. -/
def truthy (text : Option Str) : Option Str := text.filter (· ≠ [])

def changedPassword (lib : Libraries) (salt : Nat) (current_user : User) (updates : UserUpdate) :
    Except Error Str :=
  match truthy (updates.password.map (·.text)), truthy updates.conf_password with
  | some password, some conf_password =>
      if password ≠ conf_password then
        .error (.http 400 "confirm password and given password don't match")
      else .ok (lib.hash salt password)
  | none, none => .ok current_user.password_hash
  | _, _ => .error (.http 400 "Bad Request")

def changedUsername (users : List User) (current_user : User) (username : Option Username) :
    Except Error Str :=
  match username with
  | none => .ok current_user.username
  | some username =>
      if current_user.username ≠ username.text ∧ (userByUsername users username.text).isSome then
        .error (.http 409 "username already in use")
      else .ok username.text

def changedEmail (users : List User) (current_user : User) (email : Option EmailStr) :
    Except Error Str :=
  match email with
  | none => .ok current_user.email
  | some email =>
      if current_user.email ≠ email.text ∧ (userByEmail users email.text).isSome then
        .error (.http 409 "email already in use")
      else .ok email.text

/-- The row of the current user with the assignments that the commit writes. -/
def changedUser (lib : Libraries) (salt : Nat) (users : List User) (current_user : User)
    (updates : UserUpdate) : Except Error User := do
  let password_hash ← changedPassword lib salt current_user updates
  let username ← changedUsername users current_user updates.username
  let email ← changedEmail users current_user updates.email
  return { current_user with
    username := username, email := email, password_hash := password_hash }

def updateCurrentUser (lib : Libraries) (env : Environment) (updates : UserUpdateBody)
    (current_user : User) : Route UserResponse := do
  let updates ← parsed (updates.validate lib)
  let s ← Handler.read
  let user ← Handler.ofExcept (changedUser lib env.salt s.users current_user updates)
  env.call .commit
  Handler.write (·.setUser user)
  env.call .refresh
  return user.response

def deleteCurrentUser (env : Environment) (current_user : User) : Route Unit := do
  env.call .commit
  Handler.write (·.removeUser current_user.id)

/-- Another user is shown only once verified.  `UserResponseUnknown` is built without its
field `is_verified`, which raises. -/
def getUser (s : Store) (now : Nat) (access_token : Option Token) (username : Str) :
    Except Error UserResponse :=
  match (getOptionalCurrentUser s.users now access_token).filter (·.username = username) with
  | some current_user => .ok current_user.response
  | none =>
      match s.users.find? fun user => user.username = username ∧ user.is_verified = true with
      | none => .error (notFound "User with the given username was not found")
      | some _ => .error .server

/-! ## Dependencies -/

/-- `Depends(oauth2.get_current_user)`. -/
def withCurrentUser {α : Type} (env : Environment) (access_token : Option Token)
    (route : User → Route α) : Route α := do
  let token_data ← Handler.ofExcept (verifyAccessToken env.now access_token)
  env.call .query
  let s ← Handler.read
  let current_user ← Handler.ofExcept (tokenUser s.users token_data)
  route current_user

/-- `Depends(oauth2.get_current_admin)`. -/
def withCurrentAdmin {α : Type} (env : Environment) (access_token : Option Token)
    (route : User → Route α) : Route α :=
  withCurrentUser env access_token fun current_user => do
    let current_user ← Handler.ofExcept (adminOnly current_user)
    route current_user

end ByteBattles.Api
