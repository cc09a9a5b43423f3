import ByteBattles.Api.Routes.Submissions

/-!
# Problems

The routes of `api/app/routes/problems.py`.  A `create_problem` that is not interleaved
with another request checks and resumes in the same store.
-/

namespace ByteBattles.Api

open ByteBattles.Lib

/-! ## Creation -/

/-- A form field that holds JSON, as `json.loads` and `ProblemArrayDataValidator` read it. -/
inductive JsonField (α : Type)
  | empty
  /-- The parser or the validator raises. -/
  | invalid
  | value (a : α)
  deriving DecidableEq, Repr

/-- The form of `create_problem`, with what its bundle holds. -/
structure ProblemForm where
  id : Str
  title : Str
  description : Str
  difficulty : Difficulty
  constraints : JsonField (List Str)
  tags : JsonField (List Str)
  sample_io : JsonField (List (Str × Str))
  input_desc : Str
  output_desc : Str
  explanation : Option Str
  memory_limit_mb : Int
  time_limit_sec : Int
  visibility : Bool
  source : Option Str
  editorial : Option Str
  /-- `tests_zip.filename`. -/
  filename : Str
  /-- `none` when the bytes are not an archive. -/
  zip : Option CreateProblem.ZipFile

structure ProblemArrayDataValidator where
  tags : List Str
  constraints : List Str
  sample_io : List (Str × Str)

/-- The three fields are read in one `try` block. -/
def ProblemForm.array_data (form : ProblemForm) : Option ProblemArrayDataValidator :=
  match form.tags, form.constraints, form.sample_io with
  | .value tags, .value constraints, .value sample_io => some ⟨tags, constraints, sample_io⟩
  | _, _, _ => none

theorem ProblemForm.array_data_eq_some {form : ProblemForm}
    {array_data : ProblemArrayDataValidator} (h : form.array_data = some array_data) :
    form.tags = .value array_data.tags ∧ form.constraints = .value array_data.constraints ∧
      form.sample_io = .value array_data.sample_io := by
  unfold ProblemForm.array_data at h
  split at h
  case h_1 htags hconstraints hsample_io =>
    obtain rfl := Option.some.inj h
    exact ⟨htags, hconstraints, hsample_io⟩
  case h_2 => cases h

/-- The fields on which the coroutine branches. -/
def ProblemForm.toRequest (form : ProblemForm) : CreateProblem.Request where
  id := form.id
  filename := form.filename
  zip := form.zip
  tags := form.array_data.map (·.tags)

@[simp] theorem ProblemForm.toRequest_id (form : ProblemForm) : form.toRequest.id = form.id := rfl

@[simp] theorem ProblemForm.toRequest_filename (form : ProblemForm) :
    form.toRequest.filename = form.filename := rfl

@[simp] theorem ProblemForm.toRequest_zip (form : ProblemForm) : form.toRequest.zip = form.zip :=
  rfl

theorem ProblemForm.check_reading {form : ProblemForm} {c : CreateProblem.State}
    (hnew : form.id ∉ c.problems) (hzip : CreateProblem.zipSuffix <:+ form.filename) :
    CreateProblem.check c form.toRequest = .reading form.toRequest := by
  unfold CreateProblem.check
  rw [toRequest_id, toRequest_filename, if_neg hnew, if_neg (not_not_intro hzip)]

/-- An empty field counts as missing. -/
def ProblemForm.Complete (form : ProblemForm) : Prop :=
  [] ∉ [form.id, form.title, form.description, form.input_desc, form.output_desc] ∧
    form.constraints ≠ .empty ∧ form.tags ≠ .empty ∧ form.sample_io ≠ .empty

instance (form : ProblemForm) : Decidable form.Complete :=
  inferInstanceAs (Decidable (_ ∧ _))

/-- A field with the default `None`. -/
def optionalField (field : Option Str) : Option Str := field.filter (· ≠ [])

def ProblemForm.problem (form : ProblemForm) (tags : List Str) : Problem where
  time_limit_sec := form.time_limit_sec
  memory_limit_mb := form.memory_limit_mb
  id := form.id
  title := form.title
  difficulty := form.difficulty
  description := form.description
  constraints := (form.array_data.map (·.constraints)).getD []
  input_desc := form.input_desc
  output_desc := form.output_desc
  sample_io := (form.array_data.map (·.sample_io)).getD []
  explanation := optionalField form.explanation
  visibility := form.visibility
  source := optionalField form.source
  editorial := optionalField form.editorial
  accepted_submissions := 0
  total_submissions := 0
  tags := tags

def Store.creation (s : Store) : CreateProblem.State where
  problems := s.problems.map (·.id)
  testcases := s.testcases.map fun tc => ⟨tc.problem_id, tc.input_key, tc.output_key⟩
  bucket := s.testcaseFiles
  requests := []

def numbered : Int → List CreateProblem.TestCase → List TestCase
  | _, [] => []
  | serial, tc :: testcases =>
      ⟨serial, tc.problem_id, tc.input_key, tc.output_key⟩ :: numbered (serial + 1) testcases

def Store.setTestcaseFiles (s : Store) (bucket : Bucket (List Byte)) : Store :=
  { s with testcaseFiles := bucket }

def Store.addProblem (s : Store) (problem : Problem) (testcases : List CreateProblem.TestCase) :
    Store :=
  { s with
    problems := s.problems ++ [problem]
    testcases := s.testcases ++ numbered s.testcase_serial testcases
    testcase_serial := s.testcase_serial + testcases.length }

def createProblem (env : Environment) (form : ProblemForm) :
    Route ProblemCreateResponse := do
  Handler.refuseIf (¬ form.Complete) .unprocessable
  let s ← Handler.read
  match CreateProblem.check s.creation form.toRequest with
  | .responded (.error status_code detail) => Handler.raise (.http status_code detail)
  | _ =>
      match CreateProblem.resume s.categories env.bundle s.creation form.toRequest with
      | (t, .error status_code detail) => do
          Handler.write (·.setTestcaseFiles t.bucket)
          Handler.raise (.http status_code detail)
      | (t, .created id tags testcases) => do
          Handler.write (·.setTestcaseFiles t.bucket)
          Handler.write
            (·.addProblem (form.problem tags) (t.testcases.drop s.testcases.length))
          return ⟨id, form.title, form.difficulty, tags, testcases⟩

/-! ## Deletion -/

def Store.deleteCode (s : Store) (object_key : Str) : Store :=
  { s with submissionFiles := s.submissionFiles.deleteObjects [object_key] }

/-- The testcases and the submissions of the problem go with it. -/
def Store.removeProblem (s : Store) (id : Str) : Store :=
  { s with
    problems := s.problems.filter (·.id ≠ id)
    testcases := s.testcases.filter (·.problem_id ≠ id)
    submissions := s.submissions.filter (·.problem_id ≠ id) }

/-- The loop over the submissions, from the one with index `n` on. -/
def deleteFiles (env : Environment) : Nat → List Str → Route Unit
  | _, [] => pure ()
  | n, object_key :: keys => do
      env.call (.deleteFile n)
      Handler.write (·.deleteCode object_key)
      deleteFiles env (n + 1) keys

def Store.codeKeysOf (s : Store) (problem_id : Str) : List Str :=
  (s.submissions.filter (·.problem_id = problem_id)).map (·.code_object_key)

def deleteProblem (env : Environment) (problem_id : Str) : Route Unit := do
  let s ← Handler.read
  match s.problemById problem_id with
  | none => Handler.raise (notFound "Problem with given ID not found")
  | some problem => do
      deleteFiles env 0 (s.codeKeysOf problem.id)
      env.call .deleteFolder
      Handler.write fun s => s.setTestcaseFiles (deleteProblemFolder s.testcaseFiles problem.id)
      env.call .delete
      env.call .commit
      Handler.write (·.removeProblem problem.id)

/-! ## Tags -/

/-- `Category.slug` is the primary key. -/
def createTag (env : Environment) (tag : TagCreate) : Route TagCreate := do
  let s ← Handler.read
  env.call .commit
  Handler.refuseIf (tag.slug ∈ s.categories) .server
  Handler.write fun s => { s with categories := s.categories ++ [tag.slug] }
  env.call .refresh
  return tag

/-! ## Reading -/

def Problem.response (problem : Problem) : ProblemResponse where
  id := problem.id
  title := problem.title
  difficulty := problem.difficulty
  tags := problem.tags
  accepted_submissions := problem.accepted_submissions

def Problem.detailResponse (problem : Problem) : ProblemDetailResponse where
  toProblemResponse := problem.response
  description := problem.description
  constraints := problem.constraints
  input_desc := problem.input_desc
  output_desc := problem.output_desc
  sample_io := problem.sample_io
  explanation := problem.explanation
  memory_limit_mb := problem.memory_limit_mb
  time_limit_sec := problem.time_limit_sec
  source := problem.source
  editorial := problem.editorial
  visibility := problem.visibility

/-- `order_by(Problem.id.asc())`. -/
def byId (problems : List Problem) : List Problem :=
  problems.insertionSort (Str.keyLe (·.id))

def getProblems (s : Store) (now : Nat) (access_token : Option Token) (page limit : Int) :
    Except Error (List ProblemResponse) :=
  match Page.ofInts page limit with
  | none => .error .unprocessable
  | some page =>
      let problems :=
        if (getOptionalCurrentAdmin s.users now access_token).isSome then s.problems
        else s.problems.filter (·.visibility = true)
      .ok ((page.of (byId problems)).map Problem.response)

def getProblemById (s : Store) (now : Nat) (access_token : Option Token) (problem_id : Str) :
    Except Error ProblemDetailResponse :=
  let problem :=
    if (getOptionalCurrentAdmin s.users now access_token).isSome then s.problemById problem_id
    else s.visibleProblem problem_id
  match problem with
  | none => .error (notFound "requested problem doesn't exist")
  | some problem => .ok problem.detailResponse

end ByteBattles.Api
