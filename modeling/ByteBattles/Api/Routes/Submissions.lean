import ByteBattles.Api.Routes.Users
import ByteBattles.Lib.PyBytes

/-!
# Submissions

The routes of `api/app/routes/submissions.py`, with the storage of the code and the
properties of `Submission`.
-/

namespace ByteBattles.Api

open ByteBattles.Lib

open ByteBattles.Judge (Language)

/-! ## Storage -/

/-- `StorageServiceSubmissionCode._generate_object_key`. -/
def codeObjectKey (extension : Str) (unique_id : Uuid) : Str := unique_id.hex ++ '.' :: extension

/-- `get_file`, which raises for a missing object. -/
def getFile (bucket : Bucket (List Byte)) (object_key : Str) : Except Error (List Byte) :=
  match bucket.getObject object_key with
  | none => .error .server
  | some data => .ok data

def fileExists (bucket : Bucket (List Byte)) (object_key : Str) : Bool :=
  (bucket.getObject object_key).isSome

/-- `Submission.incorrect_testcase`: the object is looked for in one bucket and read from
the other. -/
def Store.incorrectTestcase (s : Store) (submission : Submission) :
    Except Error (Option (List Byte)) :=
  match truthy (submission.result .incorrect_testcase_key) with
  | none => .ok none
  | some key =>
      if fileExists s.submissionFiles key then (getFile s.testcaseFiles key).map some
      else .ok none

def Store.code (s : Store) (submission : Submission) : Except Error (List Byte) :=
  getFile s.submissionFiles submission.code_object_key

/-- The response model decodes what the storage returns. -/
def responseText (data : List Byte) : Except Error Str :=
  match Utf8.decode data with
  | none => .error .server
  | some text => .ok text

def responseTextOrNone : Option (List Byte) → Except Error (Option Str)
  | none => .ok none
  | some data => (responseText data).map some

/-! ## Rows -/

def Submission.header (submission : Submission) (user : User) : SubmissionHeaderResponse where
  id := submission.id
  submitted_at := submission.submitted_at
  problem_id := submission.problem_id
  username := user.username
  verdict := submission.result .verdict
  walltime_ms := submission.result .walltime_ms
  memory_kb := submission.result .memory_kb

def pendingRow : Judge.JudgeWorker.Row
  | .verdict => Judge.Verdict.PENDING
  | .output => (none : Option Str)
  | .incorrect_testcase_key => (none : Option Str)
  | .walltime_ms => (none : Option Int)
  | .memory_kb => (none : Option Int)

structure SubmissionCreate where
  problem_id : Str
  code : Str
  language : Language

def Store.newSubmission (s : Store) (now : Nat) (user : User) (details : SubmissionCreate)
    (key : Str) : Submission where
  id := s.submission_serial
  problem_id := details.problem_id
  language := details.language
  code_object_key := key
  result := pendingRow
  submitted_at := now
  user_id := user.id

def Store.putCode (s : Store) (key : Str) (data : List Byte) : Store :=
  { s with submissionFiles := s.submissionFiles.putObject key data }

def Store.addSubmission (s : Store) (submission : Submission) : Store :=
  { s with
    submissions := s.submissions ++ [submission]
    submission_serial := s.submission_serial + 1 }

def Store.enqueueJob (s : Store) (id : Int) : Store := { s with jobs := Str.ofInt id :: s.jobs }

/-- `Submission.code_object_key` is unique. -/
def Store.HasKey (s : Store) (key : Str) : Prop :=
  ∃ submission ∈ s.submissions, submission.code_object_key = key

instance (s : Store) (key : Str) : Decidable (s.HasKey key) := List.decidableBEx _ _

/-! ## Routes -/

def createSubmission (env : Environment) (details : SubmissionCreate) (current_user : User) :
    Route SubmissionResponse := do
  env.call .query
  let s ← Handler.read
  match s.visibleProblem details.problem_id with
  | none => Handler.raise (notFound "Problem with the given ID was not found")
  | some _ => do
      let key := codeObjectKey (EXTENSIONS details.language) env.uuid
      let submission := s.newSubmission env.now current_user details key
      env.call .putObject
      Handler.write (·.putCode key (Utf8.encode details.code))
      env.call .commit
      Handler.refuseIf (s.HasKey key) .server
      Handler.write (·.addSubmission submission)
      env.call .refresh
      env.call .enqueueJob
      Handler.write (·.enqueueJob submission.id)
      env.call .loadUser
      return { submission.header current_user with
        language := submission.language
        incorrect_testcase := none
        output := submission.result .output
        code := details.code }

def listedUser (users : List User) (username : Option Str) (current_user : Option User) :
    Except Error User :=
  match truthy username with
  | some username =>
      match userByUsername users username with
      | none => .error (notFound "User with the given username was not found")
      | some user => .ok user
  | none =>
      match current_user with
      | none => .error (.http 400 "Username cannot be empty for non logged in users")
      | some user => .ok user

def Store.problemOf (s : Store) (submission : Submission) : Option Problem :=
  s.problemById submission.problem_id

/-- The rows that the query of `get_submissions` selects. -/
def Store.submissionsOf (s : Store) (user : User) (problem_id : Option Str) :
    Except Error (List Submission) :=
  match truthy problem_id with
  | some problem_id =>
      match s.visibleProblem problem_id with
      | none => .error (notFound "Problem with given ID was not found")
      | some problem =>
          .ok (s.submissions.filter fun r => r.user_id = user.id ∧ r.problem_id = problem.id)
  | none =>
      .ok (s.submissions.filter fun r =>
        r.user_id = user.id ∧ (s.problemOf r).any (·.visibility))

/-- `order_by(Submission.submitted_at.desc())`. -/
def newestFirst (submissions : List Submission) : List Submission :=
  submissions.insertionSort fun r r' => r'.submitted_at ≤ r.submitted_at

def getSubmissions (s : Store) (now : Nat) (access_token : Option Token)
    (problem_id username : Option Str) (page limit : Int) :
    Except Error (List SubmissionHeaderResponse) :=
  match Page.ofInts page limit with
  | none => .error .unprocessable
  | some page => do
      let user ← listedUser s.users username (getOptionalCurrentUser s.users now access_token)
      let submissions ← s.submissionsOf user problem_id
      return (page.of (newestFirst submissions)).map (·.header user)

def Store.submissionResponse (s : Store) (submission : Submission) :
    Except Error SubmissionResponse :=
  match userById s.users submission.user_id with
  | none => .error .server
  | some user => do
      let incorrect_testcase ← s.incorrectTestcase submission
      let code ← s.code submission
      let incorrect_testcase ← responseTextOrNone incorrect_testcase
      let code ← responseText code
      return { submission.header user with
        language := submission.language
        incorrect_testcase := incorrect_testcase
        output := submission.result .output
        code := code }

def getSubmissionById (s : Store) (submission_id : Int) : Except Error SubmissionResponse :=
  match s.submissionById submission_id with
  | none => .error (notFound "Submission not found")
  | some submission =>
      match s.problemOf submission with
      | none => .error .server
      | some problem =>
          if problem.visibility = false then .error (notFound "Submission not found")
          else s.submissionResponse submission

end ByteBattles.Api
