import ByteBattles.Api.CreateProblem.Model
import ByteBattles.Api.Oauth2
import ByteBattles.Lib.Handler

/-!
# What the routes call

A request is served between two others.  Its calls to the database, the buckets and
Redis may raise; a call that raises has no other effect.
-/

namespace ByteBattles.Api

open ByteBattles.Lib

/-- The calls of a route that may raise for a reason of their own. -/
inductive Call
  /-- A query before the first change. -/
  | query
  /-- `db.delete`, which loads what goes with the row. -/
  | delete
  | commit
  | refresh
  | putObject
  | deleteFile (n : Nat)
  | deleteFolder
  | enqueueJob
  /-- Loading `submission.user` after the refresh. -/
  | loadUser
  deriving DecidableEq, Repr

structure Environment where
  now : Nat
  raises : Call → Bool
  uuid : Uuid
  /-- The salt of the password hash. -/
  salt : Nat
  /-- What `create_problem` meets. -/
  bundle : CreateProblem.Environment

abbrev Route (α : Type) := Handler Error Store α

def Environment.call (env : Environment) (c : Call) : Route Unit :=
  Handler.refuseIf (env.raises c = true) .server

/-- The body or the parameters, if the schema accepts them. -/
def parsed {α : Type} : Option α → Route α
  | some a => pure a
  | none => Handler.raise .unprocessable

section

variable {α β : Type} {s : Store} {P : Except Error β → Store → Prop}

/-- A call raises and has no effect, or the route goes on. -/
theorem Environment.ends_call {env : Environment} {c : Call} {f : Unit → Route β}
    (hraises : env.raises c = true → P (.error .server) s)
    (hreturns : env.raises c = false → (f ()).Ends s P) : (env.call c >>= f).Ends s P :=
  Handler.Ends.refuseIf_bind hraises fun h => hreturns (by simpa using h)

theorem ends_parsed {a : Option α} {f : α → Route β}
    (hrejected : P (.error .unprocessable) s) (haccepted : ∀ x, a = some x → (f x).Ends s P) :
    (parsed a >>= f).Ends s P := by
  cases a with
  | none => exact hrejected
  | some x => exact haccepted x rfl

end

/-! ## Responses

A time is a number of microseconds. -/

structure UserResponse where
  username : Str
  email : Str
  is_verified : Bool
  created_at : Nat
  deriving DecidableEq, Repr

structure ProblemResponse where
  id : Str
  title : Str
  difficulty : Difficulty
  tags : List Str
  accepted_submissions : Int
  deriving DecidableEq, Repr

structure ProblemDetailResponse extends ProblemResponse where
  description : Str
  constraints : List Str
  input_desc : Str
  output_desc : Str
  sample_io : List (Str × Str)
  explanation : Option Str
  memory_limit_mb : Int
  time_limit_sec : Int
  source : Option Str
  editorial : Option Str
  visibility : Bool
  deriving DecidableEq, Repr

structure ProblemCreateResponse where
  id : Str
  title : Str
  difficulty : Difficulty
  tags : List Str
  testcases : Nat
  deriving DecidableEq, Repr

structure SubmissionHeaderResponse where
  id : Int
  submitted_at : Nat
  problem_id : Str
  username : Str
  verdict : Judge.Verdict
  walltime_ms : Option Int
  memory_kb : Option Int
  deriving DecidableEq, Repr

structure SubmissionResponse extends SubmissionHeaderResponse where
  language : Judge.Language
  incorrect_testcase : Option Str
  output : Option Str
  code : Str
  deriving DecidableEq, Repr

structure LoginResponse where
  access_token : Token
  refresh_token : Token
  deriving DecidableEq, Repr

structure TagCreate where
  name : Str
  slug : Str
  deriving DecidableEq, Repr

inductive Response
  | user (user : UserResponse)
  | login (tokens : LoginResponse)
  | refreshed (access_token : Token)
  | tag (tag : TagCreate)
  | problemCreated (problem : ProblemCreateResponse)
  | problems (problems : List ProblemResponse)
  | problem (problem : ProblemDetailResponse)
  | submission (submission : SubmissionResponse)
  | submissions (submissions : List SubmissionHeaderResponse)
  | noContent
  deriving DecidableEq, Repr

end ByteBattles.Api
