import ByteBattles.Api.Models
import ByteBattles.Lib.PyNumber

/-!
# Tokens

`api/app/utils/oauth2.py`.  Only `jwt.encode` with the secret key makes tokens that
decode.  Times are in microseconds; `exp` is cut to whole seconds.
-/

namespace ByteBattles.Api

open ByteBattles.Lib

structure Config where
  ACCESS_TOKEN_EXPIRE_MINUTES : Nat
  REFRESH_TOKEN_EXPIRE_DAYS : Nat

def second : Nat := 1000000

def minutes (n : Nat) : Nat := n * 60 * second

def days (n : Nat) : Nat := n * 86400 * second

structure TokenPayload where
  sub : Int
  deriving DecidableEq, Repr

structure Claims where
  sub : Str
  type : Str
  /-- In seconds. -/
  exp : Nat
  deriving DecidableEq, Repr

inductive Token
  | signed (claims : Claims)
  /-- Any other text. -/
  | other (text : Str)
  deriving DecidableEq, Repr

def accessType : Str := "access".toList

def refreshType : Str := "refresh".toList

def createToken (now : Nat) (payload : TokenPayload) (expire : Nat) (token_type : Str) : Token :=
  .signed ⟨Str.ofInt payload.sub, token_type, (now + expire) / second⟩

def createAccessToken (cfg : Config) (now : Nat) (payload : TokenPayload) : Token :=
  createToken now payload (minutes cfg.ACCESS_TOKEN_EXPIRE_MINUTES) accessType

def createRefreshToken (cfg : Config) (now : Nat) (payload : TokenPayload) : Token :=
  createToken now payload (days cfg.REFRESH_TOKEN_EXPIRE_DAYS) refreshType

/-- `jwt.decode`; `none` is an `InvalidTokenError`. -/
def decode (now : Nat) : Token → Option Claims
  | .signed claims => if claims.exp * second ≤ now then none else some claims
  | .other _ => none

def credentialsException : Error := .http 401 "Could not validate credentials"

/-- The `ValueError` of `int` is not caught. -/
def verifyToken (now : Nat) (token : Token) (token_type : Str) : Except Error TokenPayload :=
  match decode now token with
  | none => .error credentialsException
  | some claims =>
      if claims.type ≠ token_type then .error credentialsException
      else
        match PyNumber.int claims.sub with
        | none => .error .server
        | some sub => .ok ⟨sub⟩

def refreshAccessToken (cfg : Config) (now : Nat) (refresh_token : Token) :
    Except Error Token := do
  let token_data ← verifyToken now refresh_token refreshType
  return createAccessToken cfg now token_data

/-- `oauth2_scheme` and `verify_token`.  The token is missing when there is no bearer header. -/
def verifyAccessToken (now : Nat) : Option Token → Except Error TokenPayload
  | none => .error (.http 401 "Not authenticated")
  | some access_token => verifyToken now access_token accessType

def tokenUser (users : List User) (token_data : TokenPayload) : Except Error User :=
  match userById users token_data.sub with
  | none => .error credentialsException
  | some current_user => .ok current_user

def getCurrentUser (users : List User) (now : Nat) (access_token : Option Token) :
    Except Error User := do
  let token_data ← verifyAccessToken now access_token
  tokenUser users token_data

def adminOnly (current_user : User) : Except Error User :=
  if current_user.user_type ≠ .ADMIN then .error (.http 403 "Not enough permissions")
  else .ok current_user

def getCurrentAdmin (users : List User) (now : Nat) (access_token : Option Token) :
    Except Error User := do
  let current_user ← getCurrentUser users now access_token
  adminOnly current_user

/-- Whatever is raised, there is no user. -/
def getOptionalCurrentUser (users : List User) (now : Nat) (access_token : Option Token) :
    Option User :=
  (getCurrentUser users now access_token).toOption

def getOptionalCurrentAdmin (users : List User) (now : Nat) (access_token : Option Token) :
    Option User :=
  (getOptionalCurrentUser users now access_token).filter (·.user_type = .ADMIN)

/-! ## What a token lets through -/

variable {cfg : Config} {now : Nat} {token : Token} {token_type : Str} {payload : TokenPayload}

theorem decode_eq_some {claims : Claims} :
    decode now token = some claims ↔ token = .signed claims ∧ now < claims.exp * second := by
  cases token with
  | signed claims' =>
      simp only [decode, Option.ite_none_left_eq_some, Option.some.injEq, Token.signed.injEq,
        Nat.not_le]
      constructor
      · rintro ⟨hexp, rfl⟩
        exact ⟨rfl, hexp⟩
      · rintro ⟨rfl, hexp⟩
        exact ⟨hexp, rfl⟩
  | other text => simp [decode]

theorem verifyToken_eq_ok :
    verifyToken now token token_type = .ok payload ↔
      ∃ claims, token = .signed claims ∧ now < claims.exp * second ∧ claims.type = token_type ∧
        PyNumber.int claims.sub = some payload.sub := by
  rw [verifyToken]
  cases hdecode : decode now token with
  | none =>
      refine ⟨by simp, ?_⟩
      rintro ⟨claims, rfl, hexp, -⟩
      have := decode_eq_some.mpr ⟨rfl, hexp⟩
      simp [hdecode] at this
  | some claims =>
      obtain ⟨rfl, hexp⟩ := decode_eq_some.mp hdecode
      simp only [Token.signed.injEq, exists_eq_left', hexp, true_and]
      by_cases htype : claims.type = token_type
      · cases hsub : PyNumber.int claims.sub with
        | none => simp [htype]
        | some sub =>
            obtain ⟨sub'⟩ := payload
            simp [htype]
      · simp [htype]

theorem refreshAccessToken_eq_ok {access_token : Token} :
    refreshAccessToken cfg now token = .ok access_token ↔
      ∃ payload, verifyToken now token refreshType = .ok payload ∧
        access_token = createAccessToken cfg now payload := by
  rw [refreshAccessToken]
  cases verifyToken now token refreshType with
  | error e => simp [bind, Except.bind]
  | ok payload => simp [bind, Except.bind, pure, Except.pure, eq_comm]

theorem getCurrentUser_eq_ok {users : List User} {access_token : Option Token} {user : User} :
    getCurrentUser users now access_token = .ok user ↔
      ∃ token payload, access_token = some token ∧ verifyToken now token accessType = .ok payload ∧
        userById users payload.sub = some user := by
  cases access_token with
  | none => simp [getCurrentUser, verifyAccessToken, bind, Except.bind]
  | some token =>
      rw [getCurrentUser, verifyAccessToken]
      cases hverify : verifyToken now token accessType with
      | error e => simp [bind, Except.bind, hverify]
      | ok payload =>
          cases huser : userById users payload.sub with
          | none => simp [bind, Except.bind, tokenUser, hverify, huser]
          | some user' => simp [bind, Except.bind, tokenUser, hverify, huser]

theorem userById_eq_some {users : List User} {id : Int} {user : User}
    (h : userById users id = some user) : user ∈ users ∧ user.id = id :=
  ⟨List.mem_of_find?_eq_some h, by simpa using List.find?_some h⟩

end ByteBattles.Api
