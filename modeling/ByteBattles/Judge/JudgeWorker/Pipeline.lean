import ByteBattles.Judge.JudgeWorker.Executor

/-!
# The pipeline

`JudgePipeline` of `judge/judge_worker/pipeline.py` and `Database.session`.
-/

namespace ByteBattles.Judge.JudgeWorker

open ByteBattles.Lib

/-! ## Context managers -/

/-- `except Exception: db.rollback(); raise`. -/
def rollbackAndRaise {α : Type} (env : Environment) (db : Session) (e : Exc) : Run α :=
  if e.isException then do
    env.call (.rollback db)
    Traced.raise e
  else Traced.raise e

def session {α : Type} (env : Environment) (db : Session) (body : Run α)
    (update : α → Option (Int × SubmissionResult)) : Run α :=
  ((do
    let a ← body
    env.call (.commit db (update a))
    return a : Run α).catching (rollbackAndRaise env db)).ensuring (env.call (.close db))

def lookupFailed {α : Type} (container_id : Str) (e : Exc) : Run α :=
  if e.isException then
    Traced.raise (.runtimeError
      ("get container failed for container id: " ++ String.ofList container_id))
  else Traced.raise e

/-- `with self._get_container(container_id)`. -/
def getContainer {α : Type} (env : Environment) (container_id : Str) (body : Run α) : Run α := do
  (env.call (.getContainer container_id)).catching (lookupFailed container_id)
  body.ensuring (env.call (.stopContainer container_id))

/-! ## Database reads -/

def getSubmission (env : Environment) (db : Database) (submission_id : Int) : Run Submission := do
  env.call (.query .submission .submissions)
  match db.submissions submission_id with
  | some submission => return submission
  | none => Traced.raise (.valueError ("Submission " ++ submission_id.repr ++ " not found"))

def Database.testcasesOf (db : Database) (problem_id : Str) : List TestCase :=
  (db.testcases.filter (·.problem_id = problem_id)).insertionSort (·.id ≤ ·.id)

/-- `all()` returns a list, never `None`. -/
def getTestcases (env : Environment) (db : Database) (problem_id : Str) : Run (List TestCase) := do
  env.call (.query .submission .testcases)
  return db.testcasesOf problem_id

structure Limits where
  time_limit_sec : Int
  memory_limit_kb : Int

def Problem.limits (problem : Problem) : Limits where
  time_limit_sec := problem.time_limit_sec
  memory_limit_kb := problem.memory_limit_mb * 1024

def getTimeMemLimit (env : Environment) (db : Database) (problem_id : Str) : Run Limits := do
  env.call (.query .submission .problems)
  match db.problems problem_id with
  | some problem => return problem.limits
  | none => Traced.raise (.valueError ("Problem " ++ String.ofList problem_id ++ " not found"))

/-- What the first session reads. -/
structure Job where
  submission : Submission
  testcases : List TestCase
  limits : Limits

def readJob (env : Environment) (db : Database) (submission_id : Int) : Run Job := do
  let submission ← getSubmission env db submission_id
  let testcases ← getTestcases env db submission.problem_id
  let limits ← getTimeMemLimit env db submission.problem_id
  return ⟨submission, testcases, limits⟩

/-- The write is skipped if the row is gone. -/
def updateSubmissionResult (env : Environment) (db : Database) (submission_id : Int)
    (result : SubmissionResult) : Run Bool :=
  session env .result (do
    env.call (.query .result .submissions)
    return (db.submissions submission_id).isSome)
    fun found => if found then some (submission_id, result) else none

/-! ## Compilation -/

def SubmissionResult.compiled (result : SubmissionResult) (compile_result : CompileResult) :
    SubmissionResult :=
  if compile_result.ok then result
  else { result with verdict := .COMPILATION_ERROR, output := some compile_result.output }

def compile (cfg : Config) (env : Environment) (container : Str) (language : Language)
    (result : SubmissionResult) : Run SubmissionResult :=
  match language with
  | .C => do return result.compiled (← compileC cfg env container)
  | .CPP => do return result.compiled (← compileCpp cfg env container)
  | .PYTHON => return result

def executablePath (cfg : Config) (language : Language) : Str :=
  match language with
  | .C => cfg.WORKSPACE_DIR ++ mainOut
  | .CPP => cfg.WORKSPACE_DIR ++ mainOut
  | .PYTHON => cfg.WORKSPACE_DIR ++ mainPy

/-! ## The testcase loop -/

structure Failure where
  incorrect_testcase_idx : Int
  incorrect_testcase_key : Str
  output : Str

structure Judged where
  final_verdict : Verdict
  first_failure : Option Failure
  max_runtime_ms : Int
  max_memory_used_kb : Int

def decoded (data : List Byte) : Except Exc Str :=
  match Utf8.decode data with
  | some s => .ok s
  | none => .error .unicodeDecodeError

theorem decoded_eq_ok_iff {data : List Byte} {s : Str} :
    decoded data = .ok s ↔ Utf8.decode data = some s := by
  unfold decoded
  cases Utf8.decode data <;> simp

/-- What the loop runs the testcases with. -/
structure Sandbox where
  container : Str
  language : Language
  executable_path : Str
  limits : Limits

/-- The body of the loop up to the run result. -/
def runTestcase (env : Environment) (sandbox : Sandbox) (idx : Nat) (testcase : TestCase) :
    Run RunResult := do
  env.call (.readTestcaseInput idx testcase.input_key)
  let input_data ← Traced.ofExcept (decoded (env.testcaseFile testcase.input_key))
  env.call (.readTestcaseOutput idx testcase.output_key)
  let expected_output ← Traced.ofExcept (decoded (env.testcaseFile testcase.output_key))
  runProgram env idx sandbox.container sandbox.language sandbox.executable_path input_data
    expected_output sandbox.limits.time_limit_sec sandbox.limits.memory_limit_kb

/-- The loop from index `idx` on, with the maxima so far. -/
def judgeTestcases (env : Environment) (sandbox : Sandbox) :
    Nat → Int → Int → List TestCase → Run Judged
  | _, max_runtime_ms, max_memory_used_kb, [] =>
      return ⟨.ACCEPTED, none, max_runtime_ms, max_memory_used_kb⟩
  | idx, max_runtime_ms, max_memory_used_kb, testcase :: testcases => do
      let run_result ← runTestcase env sandbox idx testcase
      let max_runtime_ms := max max_runtime_ms run_result.runtime_ms
      let max_memory_used_kb := max max_memory_used_kb run_result.memory_kb
      if run_result.ok then
        judgeTestcases env sandbox (idx + 1) max_runtime_ms max_memory_used_kb testcases
      else
        return ⟨run_result.verdict,
          some ⟨idx, testcase.input_key, run_result.output.take 8192⟩,
          max_runtime_ms, max_memory_used_kb⟩

/-- The result after the loop.  Without a failure, subscripting `None` raises. -/
def SubmissionResult.judged (result : SubmissionResult) (j : Judged) :
    Except Exc SubmissionResult :=
  let result := { result with
    verdict := j.final_verdict
    runtime_ms := some j.max_runtime_ms
    memory_kb := some j.max_memory_used_kb }
  if j.final_verdict ≠ .ACCEPTED then
    match j.first_failure with
    | some failure => .ok { result with
        incorrect_testcase_idx := some failure.incorrect_testcase_idx
        incorrect_testcase_key := some failure.incorrect_testcase_key
        output := some failure.output }
    | none => .error .typeError
  else .ok result

/-! ## `process_submission` -/

/-- The body of the `with` block of the container. -/
def judge (cfg : Config) (env : Environment) (submission_id : Int) (job : Job)
    (container : Str) : Run SubmissionResult := do
  let key := job.submission.code_object_key
  let language := job.submission.language
  env.call (.readSubmissionCode key)
  copyCodeToContainer cfg env container language (env.submissionFile key)
  let result ← compile cfg env container language
    { submission_id := submission_id, verdict := .PENDING }
  if result.verdict = .PENDING then
    let judged ← judgeTestcases env
      ⟨container, language, executablePath cfg language, job.limits⟩ 1 0 0 job.testcases
    Traced.ofExcept (result.judged judged)
  else return result

/-- `process_submission` up to the result. -/
def judgeSubmission (cfg : Config) (env : Environment) (db : Database) (submission_id : Int) :
    Run SubmissionResult := do
  let job ← session env .submission (readJob env db submission_id) fun _ => none
  let language := job.submission.language
  env.call (.acquireWarmSandbox language cfg.ACQUIRE_TIMEOUT_SECONDS)
  match env.sandbox with
  | none => Traced.raise (.timeoutError ("No warm sandbox available for " ++ language.value))
  | some container_id =>
      env.call (.publishEvent submission_id language)
      getContainer env container_id (judge cfg env submission_id job container_id)

def processSubmission (cfg : Config) (env : Environment) (db : Database) (submission_id : Int) :
    Run SubmissionResult := do
  let result ← judgeSubmission cfg env db submission_id
  let _ ← updateSubmissionResult env db submission_id result
  return result

end ByteBattles.Judge.JudgeWorker
