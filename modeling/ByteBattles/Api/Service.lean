import ByteBattles.Api.CreateProblem.Integrity
import ByteBattles.Api.Routes.Problems
import ByteBattles.Lib.Transition

/-!
# The service

Requests are served one after the other, while the clock does not go back.  A client
presents tokens that were issued to it or to others, or made up.  Workers take jobs,
put them back and store results.
-/

namespace ByteBattles.Api

open ByteBattles.Lib

open ByteBattles.Judge.JudgeWorker (SubmissionResult assigned)

inductive Request
  | register (body : UserCreateBody)
  | login (username password : Str)
  | refresh (refresh_token : Token)
  | getCurrentUser (access_token : Option Token)
  | updateCurrentUser (access_token : Option Token) (updates : UserUpdateBody)
  | deleteCurrentUser (access_token : Option Token)
  | getUser (access_token : Option Token) (username : Str)
  | createTag (access_token : Option Token) (tag : TagCreate)
  | createProblem (access_token : Option Token) (form : ProblemForm)
  | deleteProblem (access_token : Option Token) (problem_id : Str)
  | getProblems (access_token : Option Token) (page limit : Int)
  | getProblemById (access_token : Option Token) (problem_id : Str)
  | createSubmission (access_token : Option Token) (details : SubmissionCreate)
  | getSubmissions (access_token : Option Token) (problem_id username : Option Str)
      (page limit : Int)
  | getSubmissionById (submission_id : Int)

def Request.token : Request → Option Token
  | .refresh refresh_token => some refresh_token
  | .getCurrentUser access_token
  | .updateCurrentUser access_token _
  | .deleteCurrentUser access_token
  | .getUser access_token _
  | .createTag access_token _
  | .createProblem access_token _
  | .deleteProblem access_token _
  | .getProblems access_token _ _
  | .getProblemById access_token _
  | .createSubmission access_token _
  | .getSubmissions access_token _ _ _ _ => access_token
  | .register _ | .login _ _ | .getSubmissionById _ => none

def respond {α : Type} (response : α → Response) (route : Route α) : Route Response := do
  let a ← route
  return response a

def reading {α : Type} (route : Store → Except Error α) : Route α := do
  let s ← Handler.read
  Handler.ofExcept (route s)

theorem respond_reading {α : Type} (response : α → Response) (route : Store → Except Error α)
    (s : Store) : respond response (reading route) s = ((route s).map response, s) := by
  simp only [respond, reading, Handler.bind_apply, Handler.read_apply, Handler.ofExcept_apply]
  cases route s with
  | error e => rfl
  | ok a => rfl

def serve (lib : Libraries) (cfg : Config) (env : Environment) : Request → Route Response
  | .register body => respond .user (Api.register lib env body)
  | .login username password => respond .login (Api.login lib cfg env username password)
  | .refresh refresh_token => respond .refreshed (Api.refresh cfg env refresh_token)
  | .getCurrentUser access_token =>
      respond (.user ·.response) (withCurrentUser env access_token pure)
  | .updateCurrentUser access_token updates =>
      respond .user (withCurrentUser env access_token (Api.updateCurrentUser lib env updates))
  | .deleteCurrentUser access_token =>
      respond (fun _ => .noContent) (withCurrentUser env access_token (Api.deleteCurrentUser env))
  | .getUser access_token username =>
      respond .user (reading fun s => Api.getUser s env.now access_token username)
  | .createTag access_token tag =>
      respond .tag (withCurrentAdmin env access_token fun _ => Api.createTag env tag)
  | .createProblem access_token form =>
      respond .problemCreated
        (withCurrentAdmin env access_token fun _ => Api.createProblem env form)
  | .deleteProblem access_token problem_id =>
      respond (fun _ => .noContent)
        (withCurrentAdmin env access_token fun _ => Api.deleteProblem env problem_id)
  | .getProblems access_token page limit =>
      respond .problems (reading fun s => Api.getProblems s env.now access_token page limit)
  | .getProblemById access_token problem_id =>
      respond .problem (reading fun s => Api.getProblemById s env.now access_token problem_id)
  | .createSubmission access_token details =>
      respond .submission (withCurrentUser env access_token (Api.createSubmission env details))
  | .getSubmissions access_token problem_id username page limit =>
      respond .submissions
        (reading fun s => Api.getSubmissions s env.now access_token problem_id username page limit)
  | .getSubmissionById submission_id =>
      respond .submission (reading fun s => Api.getSubmissionById s submission_id)

/-! ## Histories -/

structure Event where
  store : Store
  env : Environment
  request : Request
  result : Except Error Response

structure State where
  store : Store
  now : Nat
  history : List Event
  /-- The payloads that workers have taken from the job list. -/
  picked : List Str

def Response.tokens : Response → List Token
  | .login tokens => [tokens.access_token, tokens.refresh_token]
  | .refreshed access_token => [access_token]
  | _ => []

def Event.issued (e : Event) : List Token :=
  match e.result with
  | .ok response => response.tokens
  | .error _ => []

def State.issued (s : State) : List Token := s.history.flatMap Event.issued

/-- A client cannot sign a token. -/
def State.CanPresent (s : State) : Option Token → Prop
  | some (.signed claims) => .signed claims ∈ s.issued
  | _ => True

instance (s : State) : (token : Option Token) → Decidable (s.CanPresent token)
  | some (.signed _) => inferInstanceAs (Decidable (_ ∈ _))
  | some (.other _) => isTrue trivial
  | none => isTrue trivial

inductive Action
  | request (env : Environment) (request : Request)
  /-- An operator makes a user an administrator. -/
  | promote (id : Int)
  /-- `brpop` of a worker. -/
  | pick
  /-- `lpush` of a payload that was taken. -/
  | requeue (payload : Str)
  /-- The commit of a result. -/
  | judged (id : Int) (result : SubmissionResult)

def Store.promote (s : Store) (id : Int) : Store :=
  { s with users := s.users.map fun u => if u.id = id then { u with user_type := .ADMIN } else u }

def Store.setResult (s : Store) (id : Int) (result : SubmissionResult) : Store :=
  { s with
    submissions := s.submissions.map fun r =>
      if r.id = id then { r with result := assigned result } else r }

def step (lib : Libraries) (cfg : Config) (s : State) : Action → Option State
  | .request env request =>
      if s.now ≤ env.now ∧ s.CanPresent request.token then
        let (result, store) := serve lib cfg env request s.store
        some { s with
          store := store
          now := env.now
          history := s.history ++ [⟨s.store, env, request, result⟩] }
      else none
  | .promote id => some { s with store := s.store.promote id }
  | .pick =>
      match s.store.jobs.getLast? with
      | none => none
      | some payload => some { s with
          store := { s.store with jobs := s.store.jobs.dropLast }
          picked := payload :: s.picked }
  | .requeue payload =>
      if payload ∈ s.picked then
        some { s with store := { s.store with jobs := payload :: s.store.jobs } }
      else none
  | .judged id result =>
      if Str.ofInt id ∈ s.picked then some { s with store := s.store.setResult id result }
      else none

def start : State where
  store := .empty
  now := 0
  history := []
  picked := []

def system (lib : Libraries) (cfg : Config) : System State Action where
  init := fun s => s = start
  step := step lib cfg

/-! ## Concrete libraries -/

/-- Addresses are kept as they are, and passwords are their own hashes. -/
def plain : Libraries where
  emailStr := fun s => if h : '@' ∈ s then some ⟨s, h⟩ else none
  hash := fun _ password => password
  verify := fun password password_hash => password == password_hash

def halfHour : Config where
  ACCESS_TOKEN_EXPIRE_MINUTES := 30
  REFRESH_TOKEN_EXPIRE_DAYS := 1

def quiet (now : Nat) (uuid : Uuid) : Environment where
  now := now
  raises := fun _ => false
  uuid := uuid
  salt := 0
  bundle := CreateProblem.calm

def sumForm (id : Str) (visibility : Bool) : ProblemForm where
  id := id
  title := "Sum".toList
  description := "Add two numbers.".toList
  difficulty := .EASY
  constraints := .value []
  tags := .value []
  sample_io := .value [("1 2".toList, "3".toList)]
  input_desc := "Two numbers.".toList
  output_desc := "Their sum.".toList
  explanation := none
  memory_limit_mb := 256
  time_limit_sec := 1
  visibility := visibility
  source := none
  editorial := none
  filename := CreateProblem.twoSum.filename
  zip := CreateProblem.twoSum.zip

def ann : UserCreateBody where
  username := "ann".toList
  email := "ann@x".toList
  password := "passw0rd".toList
  conf_password := "passw0rd".toList

def annRow : User := Store.empty.newUser 0 ann.username ann.email ann.password

def annToken : Token := createAccessToken halfHour 5 ⟨1⟩

end ByteBattles.Api
