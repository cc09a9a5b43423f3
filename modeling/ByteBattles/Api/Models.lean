import ByteBattles.Api.Storage
import ByteBattles.Judge.JudgeWorker.Calls

/-!
# The tables and stores of the API

The rows of `api/app/models` that the routes read and write, the two buckets, and the
job list.  A primary key is unique; the ids of users, testcases and submissions are
drawn from sequences.
-/

namespace ByteBattles.Api

open ByteBattles.Lib

open ByteBattles.Judge (Language Verdict)

inductive UserType
  | USER
  | ADMIN
  deriving DecidableEq, Repr

inductive Difficulty
  | EASY
  | MEDIUM
  | HARD
  deriving DecidableEq, Repr

def EXTENSIONS : Language → Str
  | .C => ['c']
  | .CPP => ['c', 'p', 'p']
  | .PYTHON => ['p', 'y']

structure User where
  id : Int
  username : Str
  email : Str
  password_hash : Str
  is_verified : Bool
  created_at : Nat
  user_type : UserType
  deriving DecidableEq, Repr

/-- A problem with the slugs of its tags; `sample_io` is a dictionary in its order. -/
structure Problem extends Judge.JudgeWorker.Problem where
  id : Str
  title : Str
  difficulty : Difficulty
  description : Str
  constraints : List Str
  input_desc : Str
  output_desc : Str
  sample_io : List (Str × Str)
  explanation : Option Str
  visibility : Bool
  source : Option Str
  editorial : Option Str
  accepted_submissions : Int
  total_submissions : Int
  tags : List Str

abbrev TestCase := Judge.JudgeWorker.TestCase

structure Submission extends Judge.JudgeWorker.Submission where
  id : Int
  submitted_at : Nat
  user_id : Int

/-- The database, the two buckets and the job list. -/
structure Store where
  users : List User
  problems : List Problem
  /-- The slugs of the categories. -/
  categories : List Str
  testcases : List TestCase
  submissions : List Submission
  testcaseFiles : Bucket (List Byte)
  submissionFiles : Bucket (List Byte)
  jobs : List Str
  /-- The next ids. -/
  user_serial : Int
  testcase_serial : Int
  submission_serial : Int

def Store.empty : Store where
  users := []
  problems := []
  categories := []
  testcases := []
  submissions := []
  testcaseFiles := []
  submissionFiles := []
  jobs := []
  user_serial := 1
  testcase_serial := 1
  submission_serial := 1

inductive Error
  /-- An `HTTPException`. -/
  | http (status_code : Nat) (detail : String)
  /-- The body or a parameter is rejected by its schema. -/
  | unprocessable
  /-- Any other exception. -/
  | server
  deriving DecidableEq, Repr

def notFound (detail : String) : Error := .http 404 detail

/-! ## Queries -/

def userById (users : List User) (id : Int) : Option User := users.find? (·.id = id)

def userByUsername (users : List User) (username : Str) : Option User :=
  users.find? (·.username = username)

def userByEmail (users : List User) (email : Str) : Option User := users.find? (·.email = email)

def Store.problemById (s : Store) (id : Str) : Option Problem := s.problems.find? (·.id = id)

def Store.visibleProblem (s : Store) (id : Str) : Option Problem :=
  s.problems.find? fun p => p.id = id ∧ p.visibility = true

def Store.submissionById (s : Store) (id : Int) : Option Submission :=
  s.submissions.find? (·.id = id)

def Store.judgeDatabase (s : Store) : Judge.JudgeWorker.Database where
  submissions := fun id => (s.submissionById id).map (·.toSubmission)
  problems := fun id => (s.problemById id).map (·.toProblem)
  testcases := s.testcases

end ByteBattles.Api
