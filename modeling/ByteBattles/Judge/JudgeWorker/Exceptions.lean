import ByteBattles.Judge.JudgeWorker.Pipeline

/-!
# The exceptions of the pipeline

Which exception each part of `process_submission` ends with, as a function of what the
environment raises and answers: the first one in program order, unless the cleanup of
a `with` block raises another.
-/

namespace ByteBattles.Judge.JudgeWorker

open ByteBattles.Lib

section

variable (env : Environment)

/-- The exception after the cleanup of a session whose block ended with `e?`. -/
def unwound (db : Session) (e? : Option Exc) : Option Exc :=
  (env.raises (.close db)).or (e?.bind fun e =>
    if e.isException then (env.raises (.rollback db)).or (some e) else some e)

def readRaises : Option Exc :=
  unwound env .submission
    (((env.raises (.query .submission .submissions)).or
      ((env.raises (.query .submission .testcases)).or
        (env.raises (.query .submission .problems)))).or
      (env.raises (.commit .submission)))

def lookupRaises (container_id : Str) : Option Exc :=
  (env.raises .getContainer).bind fun e => (lookupFailed container_id e : Run Unit).raised

def compileRaises : Language → Option Exc
  | .C => (env.raises .execRun).or (raisedBy (compileResult env.compilation))
  | .CPP => (env.raises .execRun).or (raisedBy (compileResult env.compilation))
  | .PYTHON => none

/-- There is an executable to run. -/
def compiles : Language → Bool
  | .C => env.compilation.exit_code == some 0
  | .CPP => env.compilation.exit_code == some 0
  | .PYTHON => true

/-- One testcase: the calls, the decoding of its two files and the reading of the timing line. -/
def testcaseRaises (limits : Limits) (idx : Nat) (testcase : TestCase) : Option Exc :=
  (env.raises (.readTestcaseInput idx)).or
    ((raisedBy (decoded (env.testcaseFile testcase.input_key))).or
      ((env.raises (.readTestcaseOutput idx)).or
        ((raisedBy (decoded (env.testcaseFile testcase.output_key))).or
          ((env.raises (.execCreate idx)).or
            ((env.raises (.execStart idx)).or
              ((env.raises (.sendall idx)).or
                ((env.raises (.framesIter idx)).or
                  ((env.raises (.closeSocket idx)).or
                    ((env.raises (.execInspect idx)).or
                      (raisedBy (measurements (env.execution idx).stderr limits.time_limit_sec
                        limits.memory_limit_kb)))))))))))

/-- The run of a testcase that raises nothing is accepted. -/
def passes (limits : Limits) (idx : Nat) (testcase : TestCase) : Bool :=
  match measurements (env.execution idx).stderr limits.time_limit_sec limits.memory_limit_kb,
      decoded (env.testcaseFile testcase.output_key) with
  | .ok (_, memory_kb_used), .ok expected_output =>
      verdictOf memory_kb_used limits.memory_limit_kb (env.execution idx).exit_code
        (env.execution idx).stdout expected_output == .ACCEPTED
  | _, _ => false

/-- The loop from index `idx` on; it ends at the first testcase that does not pass. -/
def testcasesRaise (limits : Limits) : Nat → List TestCase → Option Exc
  | _, [] => none
  | idx, testcase :: testcases =>
      (testcaseRaises env limits idx testcase).or
        (if passes env limits idx testcase then testcasesRaise limits (idx + 1) testcases
        else none)

def judgeRaises (job : Job) : Option Exc :=
  (env.raises .readSubmissionCode).or
    ((env.raises .putArchive).or
      ((compileRaises env job.submission.language).or
        (if compiles env job.submission.language then
          testcasesRaise env job.limits 1 job.testcases
        else none)))

def sandboxRaises (job : Job) : Option Exc :=
  match env.sandbox with
  | none => some (.timeoutError
      ("No warm sandbox available for " ++ job.submission.language.value))
  | some container_id =>
      (env.raises .publishEvent).or
        ((lookupRaises env container_id).or
          ((env.raises .stopContainer).or (judgeRaises env job)))

/-- Everything before the result write. -/
def judgeSubmissionRaises (job : Job) : Option Exc :=
  (readRaises env).or ((env.raises .acquireWarmSandbox).or (sandboxRaises env job))

def writeRaises : Option Exc :=
  (env.raises (.query .result .submissions)).or (env.raises (.commit .result))

end

/-! ## Sessions -/

theorem unwound_none (env : Environment) (db : Session) :
    unwound env db none = env.raises (.close db) := Option.or_none

theorem unwound_some (env : Environment) (db : Session) (e : Exc) :
    unwound env db (some e) ≠ none := by
  unfold unwound
  rw [Ne, Option.or_eq_none_iff, not_and]
  intro _
  rw [Option.bind_some]
  split <;> simp

theorem unwound_eq_none {env : Environment} {db : Session} {e? : Option Exc}
    (h : unwound env db e? = none) : e? = none ∧ env.raises (.close db) = none := by
  cases e? with
  | none => exact ⟨rfl, unwound_none env db ▸ h⟩
  | some e => exact absurd h (unwound_some env db e)

section

variable {α : Type} {env : Environment} {db : Session}

theorem raised_rollbackAndRaise (e : Exc) :
    (rollbackAndRaise env db e : Run α).raised =
      if e.isException then (env.raises (.rollback db)).or (some e) else some e := by
  unfold rollbackAndRaise
  split <;> simp [Call.step]

theorem raised_session (body : Run α) (update : α → Option (Int × SubmissionResult)) :
    (session env db body update).raised =
      unwound env db (body.raised.or (env.raises (.commit db))) := by
  have hblock : ((do
      let a ← body
      env.call (.commit db (update a))
      return a : Run α)).raised = body.raised.or (env.raises (.commit db)) :=
    Traced.raised_bind fun a _ => by simp [Call.step]
  simp only [session, unwound, Traced.raised_ensuring, Environment.raised_call, Call.step,
    Traced.raised_catching, hblock, raised_rollbackAndRaise]

theorem returns_rollbackAndRaise {Q : α → Prop} (e : Exc) :
    (rollbackAndRaise env db e : Run α).Returns Q := by
  unfold rollbackAndRaise
  split
  · exact Traced.returns_bind fun _ => Traced.returns_raise
  · exact Traced.returns_raise

theorem returns_session {body : Run α} {update : α → Option (Int × SubmissionResult)}
    {Q : α → Prop} (h : body.Returns Q) : (session env db body update).Returns Q := by
  refine Traced.Returns.ensuring (Traced.Returns.catching ?_ fun e => returns_rollbackAndRaise e)
  exact h.bind fun a ha => Traced.returns_bind fun _ => Traced.returns_pure ha

end

/-! ## The rows that are read -/

section

variable {env : Environment} {db : Database} {submission_id : Int} {submission : Submission}
  {problem : Problem}

/-- What the first session reads if both rows exist. -/
def Database.job (db : Database) (submission : Submission) (problem : Problem) : Job where
  submission := submission
  testcases := db.testcasesOf submission.problem_id
  limits := problem.limits

theorem raised_getSubmission (hs : db.submissions submission_id = some submission) :
    (getSubmission env db submission_id).raised =
      env.raises (.query .submission .submissions) := by
  simp [getSubmission, hs, Call.step]

theorem returns_getSubmission (hs : db.submissions submission_id = some submission) :
    (getSubmission env db submission_id).Returns (· = submission) := by
  simp only [getSubmission, hs]
  exact Traced.returns_bind fun _ => Traced.returns_pure rfl

theorem raised_getTestcases (problem_id : Str) :
    (getTestcases env db problem_id).raised = env.raises (.query .submission .testcases) := by
  simp [getTestcases, Call.step]

theorem returns_getTestcases (problem_id : Str) :
    (getTestcases env db problem_id).Returns (· = db.testcasesOf problem_id) :=
  Traced.returns_bind fun _ => Traced.returns_pure rfl

theorem raised_getTimeMemLimit {problem_id : Str} (hp : db.problems problem_id = some problem) :
    (getTimeMemLimit env db problem_id).raised =
      env.raises (.query .submission .problems) := by
  simp [getTimeMemLimit, hp, Call.step]

theorem returns_getTimeMemLimit {problem_id : Str} (hp : db.problems problem_id = some problem) :
    (getTimeMemLimit env db problem_id).Returns (· = problem.limits) := by
  simp only [getTimeMemLimit, hp]
  exact Traced.returns_bind fun _ => Traced.returns_pure rfl

theorem raised_readJob (hs : db.submissions submission_id = some submission)
    (hp : db.problems submission.problem_id = some problem) :
    (readJob env db submission_id).raised =
      (env.raises (.query .submission .submissions)).or
        ((env.raises (.query .submission .testcases)).or
          (env.raises (.query .submission .problems))) := by
  rw [readJob, (returns_getSubmission hs).raised_bind, raised_getSubmission hs,
    (returns_getTestcases _).raised_bind, raised_getTestcases,
    (returns_getTimeMemLimit hp).raised_bind, raised_getTimeMemLimit hp, Traced.raised_pure,
    Option.or_none]

theorem returns_readJob (hs : db.submissions submission_id = some submission)
    (hp : db.problems submission.problem_id = some problem) :
    (readJob env db submission_id).Returns (· = db.job submission problem) := by
  refine (returns_getSubmission hs).bind ?_
  rintro _ rfl
  refine (returns_getTestcases _).bind ?_
  rintro _ rfl
  refine (returns_getTimeMemLimit hp).bind ?_
  rintro _ rfl
  exact Traced.returns_pure rfl

theorem raised_session_readJob (hs : db.submissions submission_id = some submission)
    (hp : db.problems submission.problem_id = some problem) :
    (session env .submission (readJob env db submission_id) fun _ => none).raised =
      readRaises env := by
  rw [raised_session, raised_readJob hs hp, readRaises]

end

/-! ## Compilation -/

section

variable (cfg : Config) (env : Environment)

theorem raised_compileWith (container line : Str) :
    (compileWith cfg env container line).raised =
      (env.raises .execRun).or (raisedBy (compileResult env.compilation)) := by
  simp [compileWith, Call.step]

theorem raised_compile (container : Str) (language : Language) (result : SubmissionResult) :
    (compile cfg env container language result).raised = compileRaises env language := by
  cases language with
  | C =>
      rw [compile, Traced.raised_bind (o := none) fun _ _ => rfl, compileC, raised_compileWith,
        Option.or_none, compileRaises]
  | CPP =>
      rw [compile, Traced.raised_bind (o := none) fun _ _ => rfl, compileCpp, raised_compileWith,
        Option.or_none, compileRaises]
  | PYTHON => rfl

def pendingResult (submission_id : Int) : SubmissionResult where
  submission_id := submission_id
  verdict := .PENDING

/-- The result is pending, or the compiler has failed. -/
def Compiled (submission_id : Int) (ok : Bool) (result : SubmissionResult) : Prop :=
  if ok then result = pendingResult submission_id else result.verdict = .COMPILATION_ERROR

theorem ok_of_compileResult {r : CompileResult} (h : compileResult env.compilation = .ok r) :
    r.ok = (env.compilation.exit_code == some 0) := by
  unfold compileResult at h
  cases hexit : env.compilation.exit_code with
  | none => rw [hexit] at h; cases h
  | some exit_code =>
      rw [hexit] at h
      cases h
      simp

theorem returns_compileWith (container line : Str) :
    (compileWith cfg env container line).Returns fun r => compileResult env.compilation = .ok r :=
  Traced.returns_bind fun _ => Traced.returns_ofExcept fun _ hr => hr

/-- A compiler has run, or the language needs none. -/
theorem returns_compile_of {R : SubmissionResult → Prop} {language : Language}
    {result : SubmissionResult} (container : Str)
    (hcompiled : ∀ r, compileResult env.compilation = .ok r → r.ok = compiles env language →
      R (result.compiled r))
    (hinterpreted : compiles env language = true → R result) :
    (compile cfg env container language result).Returns R := by
  cases language with
  | C =>
      exact (returns_compileWith cfg env container (gccLine cfg)).bind fun r hr =>
        Traced.returns_pure (hcompiled r hr (ok_of_compileResult env hr))
  | CPP =>
      exact (returns_compileWith cfg env container (gppLine cfg)).bind fun r hr =>
        Traced.returns_pure (hcompiled r hr (ok_of_compileResult env hr))
  | PYTHON => exact Traced.returns_pure (hinterpreted rfl)

theorem compiled_pendingResult (submission_id : Int) {ok : Bool} {r : CompileResult}
    (h : r.ok = ok) : Compiled submission_id ok ((pendingResult submission_id).compiled r) := by
  subst h
  unfold Compiled SubmissionResult.compiled
  split <;> rfl

theorem returns_compile (container : Str) (language : Language) (submission_id : Int) :
    (compile cfg env container language (pendingResult submission_id)).Returns
      (Compiled submission_id (compiles env language)) := by
  apply returns_compile_of
  · intro r _ hok
    exact compiled_pendingResult submission_id hok
  · intro hcompiles
    rw [hcompiles]
    rfl

end

/-! ## Testcases -/

section

variable (env : Environment) (sandbox : Sandbox)

theorem raised_runProgram (idx : Nat) (input_data expected_output : Str) :
    (runProgram env idx sandbox.container sandbox.language sandbox.executable_path input_data
      expected_output sandbox.limits.time_limit_sec sandbox.limits.memory_limit_kb).raised =
      (env.raises (.execCreate idx)).or
        ((env.raises (.execStart idx)).or
          ((env.raises (.sendall idx)).or
            ((env.raises (.framesIter idx)).or
              ((env.raises (.closeSocket idx)).or
                ((env.raises (.execInspect idx)).or
                  (raisedBy (measurements (env.execution idx).stderr
                    sandbox.limits.time_limit_sec sandbox.limits.memory_limit_kb))))))) := by
  simp [runProgram, Call.step, raisedBy_runResult]

theorem raised_runTestcase (idx : Nat) (testcase : TestCase) :
    (runTestcase env sandbox idx testcase).raised =
      testcaseRaises env sandbox.limits idx testcase := by
  simp only [runTestcase, Environment.raised_call_bind, Call.step, testcaseRaises]
  congr 1
  rw [Traced.raised_bind fun _ _ => ?_, Traced.raised_ofExcept]
  rw [Environment.raised_call_bind]
  congr 1
  rw [Traced.raised_bind fun _ _ => raised_runProgram env sandbox idx _ _,
    Traced.raised_ofExcept]

/-- A run that returns has a verdict, `ACCEPTED` exactly if the testcase passes. -/
structure RunOf (idx : Nat) (testcase : TestCase) (r : RunResult) : Prop where
  ok : r.ok = passes env sandbox.limits idx testcase
  ok_iff : r.ok = (r.verdict == .ACCEPTED)
  judged : r.verdict ≠ .PENDING

theorem returns_runTestcase (idx : Nat) (testcase : TestCase) :
    (runTestcase env sandbox idx testcase).Returns (RunOf env sandbox idx testcase) := by
  refine Traced.returns_bind fun _ => Traced.returns_bind fun _ => Traced.returns_bind fun _ => ?_
  refine Traced.Returns.bind (Traced.returns_ofExcept
    (Q := fun s => decoded (env.testcaseFile testcase.output_key) = .ok s) fun _ h => h) ?_
  intro expected_output hexpected
  iterate 6 refine Traced.returns_bind fun _ => ?_
  refine Traced.returns_ofExcept fun r hr => ?_
  obtain ⟨hverdict, hok⟩ := runResult_eq_ok hr
  refine ⟨?_, hok, hverdict ▸ verdictOf_ne_pending _ _ _ _ _⟩
  unfold runResult at hr
  unfold passes
  cases hm : measurements (env.execution idx).stderr sandbox.limits.time_limit_sec
      sandbox.limits.memory_limit_kb with
  | error e => rw [hm] at hr; cases hr
  | ok m =>
      rw [hm] at hr
      cases hr
      rw [hexpected]

theorem raised_judgeTestcases (idx : Nat) (max_runtime_ms max_memory_used_kb : Int)
    (testcases : List TestCase) :
    (judgeTestcases env sandbox idx max_runtime_ms max_memory_used_kb testcases).raised =
      testcasesRaise env sandbox.limits idx testcases := by
  induction testcases generalizing idx max_runtime_ms max_memory_used_kb with
  | nil => rfl
  | cons testcase testcases ih =>
      rw [judgeTestcases, testcasesRaise, Traced.raised_bind fun r hr => ?_, raised_runTestcase]
      rw [← (returns_runTestcase env sandbox idx testcase r hr).ok]
      split
      · exact ih _ _ _
      · rfl

/-- The loop ends with a verdict, and with a failure unless all testcases are accepted. -/
def LoopResult (j : Judged) : Prop :=
  j.final_verdict ≠ .PENDING ∧ (j.final_verdict ≠ .ACCEPTED → j.first_failure.isSome)

theorem returns_judgeTestcases (idx : Nat) (max_runtime_ms max_memory_used_kb : Int)
    (testcases : List TestCase) :
    (judgeTestcases env sandbox idx max_runtime_ms max_memory_used_kb testcases).Returns
      LoopResult := by
  induction testcases generalizing idx max_runtime_ms max_memory_used_kb with
  | nil => exact Traced.returns_pure ⟨by simp, by simp⟩
  | cons testcase testcases ih =>
      refine (returns_runTestcase env sandbox idx testcase).bind fun r hr => ?_
      dsimp only
      split
      · exact ih _ _ _
      · exact Traced.returns_pure ⟨hr.judged, fun _ => rfl⟩

end

/-! ## The whole pipeline -/

section

variable {cfg : Config} {env : Environment} {submission_id : Int}

theorem raisedBy_judged {result : SubmissionResult} {j : Judged} (hj : LoopResult j) :
    raisedBy (result.judged j) = none := by
  unfold SubmissionResult.judged
  dsimp only
  split_ifs with h
  · obtain ⟨failure, hfailure⟩ := Option.isSome_iff_exists.mp (hj.2 h)
    rw [hfailure]
    rfl
  · rfl

theorem judged_verdict {result r : SubmissionResult} {j : Judged} (h : result.judged j = .ok r) :
    r.verdict = j.final_verdict := by
  unfold SubmissionResult.judged at h
  dsimp only at h
  split_ifs at h
  · cases hfailure : j.first_failure with
    | none => rw [hfailure] at h; cases h
    | some failure => rw [hfailure] at h; cases h; rfl
  · cases h; rfl

theorem raised_judge (job : Job) (container : Str) :
    (judge cfg env submission_id job container).raised = judgeRaises env job := by
  simp only [judge, copyCodeToContainer, Environment.raised_call_bind, Call.step, judgeRaises]
  congr 2
  rw [Traced.raised_bind fun result hresult => ?_, raised_compile]
  have hcompiled := returns_compile cfg env container job.submission.language submission_id
    result hresult
  unfold Compiled at hcompiled
  split at hcompiled
  next hok =>
    have hpending : (pendingResult submission_id).verdict = .PENDING := rfl
    rw [hcompiled, if_pos hpending, if_pos hok, Traced.raised_bind fun j hj => ?_,
      raised_judgeTestcases, Option.or_none]
    exact raisedBy_judged (returns_judgeTestcases _ _ _ _ _ _ j hj)
  next hok =>
    have hfailed : result.verdict ≠ .PENDING := by simp [hcompiled]
    rw [if_neg hfailed, if_neg hok]
    rfl

theorem returns_judge (job : Job) (container : Str) :
    (judge cfg env submission_id job container).Returns fun r => r.verdict ≠ .PENDING := by
  refine Traced.returns_bind fun _ => Traced.returns_bind fun _ =>
    Traced.returns_bind fun result => ?_
  split
  next =>
    refine (returns_judgeTestcases _ _ _ _ _ _).bind fun j hj => ?_
    exact Traced.returns_ofExcept fun r hr => judged_verdict hr ▸ hj.1
  next hpending => exact Traced.returns_pure hpending

theorem raised_getContainer {α : Type} (container_id : Str) (body : Run α) :
    (getContainer env container_id body).raised =
      (lookupRaises env container_id).or ((env.raises .stopContainer).or body.raised) := by
  rw [getContainer, Traced.raised_bind fun _ _ => Traced.raised_ensuring _ _,
    Traced.raised_catching, Environment.raised_call, Environment.raised_call]
  rfl

theorem returns_getContainer {α : Type} {container_id : Str} {body : Run α} {Q : α → Prop}
    (h : body.Returns Q) : (getContainer env container_id body).Returns Q :=
  Traced.returns_bind fun _ => h.ensuring

variable {db : Database} {submission : Submission} {problem : Problem}

theorem raised_judgeSubmission (hs : db.submissions submission_id = some submission)
    (hp : db.problems submission.problem_id = some problem) :
    (judgeSubmission cfg env db submission_id).raised =
      judgeSubmissionRaises env (db.job submission problem) := by
  rw [judgeSubmission, (returns_session (returns_readJob hs hp)).raised_bind,
    raised_session_readJob hs hp, judgeSubmissionRaises, Environment.raised_call_bind]
  congr 2
  unfold sandboxRaises
  cases env.sandbox with
  | none => rfl
  | some container_id =>
      dsimp only
      rw [Environment.raised_call_bind, raised_getContainer, raised_judge]
      rfl

theorem returns_judgeSubmission :
    (judgeSubmission cfg env db submission_id).Returns fun r => r.verdict ≠ .PENDING := by
  refine Traced.returns_bind fun job => Traced.returns_bind fun _ => ?_
  split
  · exact Traced.returns_raise
  · exact Traced.returns_bind fun _ => returns_getContainer (returns_judge _ _)

end

end ByteBattles.Judge.JudgeWorker
