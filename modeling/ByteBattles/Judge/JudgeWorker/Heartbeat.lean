import ByteBattles.Judge.JudgeWorker.Exceptions
import ByteBattles.Judge.JudgeWorker.Trace
import ByteBattles.Judge.JudgeWorker.Worker
import ByteBattles.Judge.Orchestrator.Model
import Mathlib.Algebra.Order.BigOperators.Group.List

/-!
# The heartbeat of a worker in the testcase loop

`_consume_from_list` stores the heartbeat once for each iteration, before the pop, and
`process_submission` goes through all testcases in one iteration.
`JudgeOrchestrator.check_heartbeat` examines the worker at any moment in between.
-/

namespace ByteBattles.Judge.JudgeWorker

open ByteBattles.Lib

/-! ## Examinations -/

/-- What `check_heartbeat` does with a worker. -/
inductive Examination
  | stopped
  | frozen
  | kept
  deriving DecidableEq, Repr

/-- The branches of `check_heartbeat` for one worker. -/
def checkHeartbeat (JUDGE_WORKER_TIMEOUT : Int) (current_time : ℚ) (is_alive : Bool)
    (hb : Option ℚ) : Examination :=
  match is_alive, hb with
  | true, some hb =>
      if Orchestrator.isFrozen JUDGE_WORKER_TIMEOUT current_time hb then .frozen else .kept
  | _, _ => .stopped

/-- At `current_time` the worker is in a call of the testcase loop, and the stored heartbeat
is `hb`. -/
def InLoopAt (cfg : Config) (env : Environment) (w : World) (current_time : ℚ)
    (hb : Option ℚ) : Prop :=
  ∃ pre c post, (w.run cfg env).calls = pre ++ c :: post ∧ c.step.inLoop = true ∧
    (env.afterAll w pre).now ≤ current_time ∧
    current_time ≤ (env.afterAll w (pre ++ [c])).now ∧
    (env.afterAll w pre).heartbeat = hb

/-- Whenever a live worker is examined in the testcase loop, it is kept. -/
def KeptInLoop (timeout : Int) (cfg : Config) (env : Environment) (w : World) : Prop :=
  ∀ current_time hb, InLoopAt cfg env w current_time hb →
    checkHeartbeat timeout current_time true hb = .kept

/-! ## Times -/

def executionSteps (idx : Nat) : List Step :=
  [.execCreate idx, .execStart idx, .sendall idx, .framesIter idx, .closeSocket idx,
    .execInspect idx]

def testcaseSteps (idx : Nat) : List Step :=
  .readTestcaseInput idx :: .readTestcaseOutput idx :: executionSteps idx

def setupSteps (language : Language) : List Step :=
  [.setHeartbeat, .brpop, .setSubmission, .query .submission .submissions,
    .query .submission .testcases, .query .submission .problems, .commit .submission,
    .close .submission, .acquireWarmSandbox, .publishEvent, .getContainer, .readSubmissionCode,
    .putArchive] ++ if language = .PYTHON then [] else [.execRun]

def Environment.total (env : Environment) (steps : List Step) : ℚ :=
  (steps.map env.elapsed).sum

/-- Each testcase execution takes at most `t`, itself below the timeout, and every other step
takes at most the timeout. -/
structure Bounded (timeout t : Int) (env : Environment) : Prop where
  execution : ∀ idx, env.total (executionSteps idx) ≤ t
  other : ∀ s, (∀ idx, s ∉ executionSteps idx) → env.elapsed s ≤ timeout
  limit : t < timeout

def NeverFrozen : Prop :=
  ∀ timeout cfg env w submission_id submission problem,
    Takes env w submission_id submission problem → 1 ≤ problem.time_limit_sec →
    Bounded timeout problem.time_limit_sec env → KeptInLoop timeout cfg env w

section

variable (env : Environment)

/-- How a step of a testcase fails: its call raises, or the file that it reads is not UTF-8. -/
def failsAt (testcase : TestCase) : Step → Option Exc
  | .readTestcaseInput idx =>
      (env.raises (.readTestcaseInput idx)).or
        (raisedBy (decoded (env.testcaseFile testcase.input_key)))
  | .readTestcaseOutput idx =>
      (env.raises (.readTestcaseOutput idx)).or
        (raisedBy (decoded (env.testcaseFile testcase.output_key)))
  | s => env.raises s

def performed (fails : Step → Option Exc) : List Step → List Step
  | [] => []
  | s :: steps =>
      s :: match fails s with
        | none => performed fails steps
        | some _ => []

def testcaseTime (idx : Nat) (testcase : TestCase) : ℚ :=
  env.total (performed (failsAt env testcase) (testcaseSteps idx))

/-- The time that the loop takes from index `idx` on. -/
def loopTime (limits : Limits) : Nat → List TestCase → ℚ
  | _, [] => 0
  | idx, testcase :: testcases =>
      testcaseTime env idx testcase +
        if testcaseRaises env limits idx testcase = none ∧
          passes env limits idx testcase = true then loopTime limits (idx + 1) testcases
        else 0

def sinceHeartbeat (job : Job) : ℚ :=
  env.total (setupSteps job.submission.language) + loopTime env job.limits 1 job.testcases

structure EntersLoop (job : Job) : Prop where
  setup : ∀ s ∈ setupSteps job.submission.language, env.raises s = none
  sandbox : env.sandbox ≠ none
  compiles : compiles env job.submission.language = true
  testcases : job.testcases ≠ []

end

/-! ## The clock and the heartbeat -/

section

variable {env : Environment} {w : World}

theorem total_append (steps steps' : List Step) :
    env.total (steps ++ steps') = env.total steps + env.total steps' := by
  simp [Environment.total]

theorem total_nonneg (steps : List Step) : 0 ≤ env.total steps := by
  apply List.sum_nonneg
  intro x hx
  obtain ⟨s, -, rfl⟩ := List.mem_map.mp hx
  exact env.elapsed_nonneg s

theorem after_now (c : Call) : (env.after w c).now = w.now + env.elapsed c.step := by
  unfold Environment.after
  cases env.raises c.step with
  | none =>
      cases c with
      | commit db update => cases update <;> rfl
      | _ => rfl
  | some e => rfl

theorem afterAll_now (calls : List Call) :
    (env.afterAll w calls).now = w.now + env.total (calls.map Call.step) := by
  induction calls generalizing w with
  | nil => simp [Environment.afterAll, Environment.total]
  | cons c calls ih =>
      have hrest := ih (w := env.after w c)
      rw [after_now] at hrest
      rw [List.map_cons, Environment.total, List.map_cons, List.sum_cons, ← add_assoc]
      exact hrest

theorem after_heartbeat {c : Call} (h : c.step ≠ .setHeartbeat) :
    (env.after w c).heartbeat = w.heartbeat := by
  unfold Environment.after
  cases env.raises c.step with
  | none =>
      cases c with
      | setHeartbeat => exact absurd rfl h
      | commit db update => cases update <;> rfl
      | _ => rfl
  | some e => rfl

theorem afterAll_heartbeat {calls : List Call} (h : ∀ c ∈ calls, c.step ≠ .setHeartbeat) :
    (env.afterAll w calls).heartbeat = w.heartbeat := by
  induction calls generalizing w with
  | nil => rfl
  | cons c calls ih =>
      have hrest := ih (w := env.after w c) fun c' hc' => h c' (List.mem_cons_of_mem _ hc')
      exact hrest.trans (after_heartbeat (h c (List.mem_cons_self ..)))

end

/-! ## The calls of the loop -/

section

variable {env : Environment}

theorem calls_call_bind {α : Type} (c : Call) (f : Unit → Run α) :
    (env.call c >>= f).calls =
      c :: match env.raises c.step with
        | none => (f ()).calls
        | some _ => [] := by
  unfold Environment.call
  cases env.raises c.step <;> rfl

theorem steps_runProgram (idx : Nat) (container : Str) (language : Language)
    (path input_data expected_output : Str) (time_limit_sec memory_limit_kb : Int) :
    (runProgram env idx container language path input_data expected_output time_limit_sec
      memory_limit_kb).calls.map Call.step = performed env.raises (executionSteps idx) := by
  simp only [runProgram, calls_call_bind, executionSteps, performed, Call.step, List.map_cons]
  cases env.raises (.execCreate idx) <;> cases env.raises (.execStart idx) <;>
    cases env.raises (.sendall idx) <;> cases env.raises (.framesIter idx) <;>
    cases env.raises (.closeSocket idx) <;> cases env.raises (.execInspect idx) <;> rfl

theorem steps_runTestcase (sandbox : Sandbox) (idx : Nat) (testcase : TestCase) :
    (runTestcase env sandbox idx testcase).calls.map Call.step =
      performed (failsAt env testcase) (testcaseSteps idx) := by
  have hexecution : performed (failsAt env testcase) (executionSteps idx) =
      performed env.raises (executionSteps idx) := rfl
  simp only [runTestcase, calls_call_bind, testcaseSteps, performed, failsAt, Call.step,
    List.map_cons, hexecution]
  cases env.raises (.readTestcaseInput idx) with
  | some e => rfl
  | none =>
      cases decoded (env.testcaseFile testcase.input_key) with
      | error e => rfl
      | ok input_data =>
          rw [Traced.bind_ok rfl]
          simp only [Traced.calls_ofExcept, List.nil_append, calls_call_bind, List.map_cons,
            Call.step, raisedBy_ok, Option.none_or]
          cases env.raises (.readTestcaseOutput idx) with
          | some e => rfl
          | none =>
              cases decoded (env.testcaseFile testcase.output_key) with
              | error e => rfl
              | ok expected_output =>
                  rw [Traced.bind_ok rfl]
                  simp only [Traced.calls_ofExcept, List.nil_append, steps_runProgram,
                    raisedBy_ok, Option.none_or]

/-- The loop takes the time of the testcases up to the first that does not pass. -/
theorem total_judgeTestcases (sandbox : Sandbox) (idx : Nat)
    (max_runtime_ms max_memory_used_kb : Int) (testcases : List TestCase) :
    env.total ((judgeTestcases env sandbox idx max_runtime_ms max_memory_used_kb
      testcases).calls.map Call.step) = loopTime env sandbox.limits idx testcases := by
  induction testcases generalizing idx max_runtime_ms max_memory_used_kb with
  | nil => rfl
  | cons testcase testcases ih =>
      have hraised := raised_runTestcase env sandbox idx testcase
      rw [judgeTestcases, loopTime]
      cases hrun : (runTestcase env sandbox idx testcase).result with
      | error e =>
          rw [Traced.raised, hrun, raisedBy_error] at hraised
          rw [Traced.bind_error hrun, steps_runTestcase, if_neg (by simp [← hraised]), add_zero,
            testcaseTime]
      | ok r =>
          rw [Traced.raised_of_ok hrun] at hraised
          have hok := (returns_runTestcase env sandbox idx testcase r hrun).ok
          rw [Traced.bind_ok hrun, List.map_append, total_append, steps_runTestcase,
            testcaseTime, ← hraised, ← hok]
          congr 1
          dsimp only
          split
          next hpass => rw [if_pos ⟨rfl, hpass⟩, ih]
          next hpass => rw [if_neg (by simp [hpass])]; rfl

theorem loop_judgeTestcases {sandbox : Sandbox} {testcases : List TestCase} :
    (judgeTestcases env sandbox 1 0 0 testcases).Makes fun c => c.step.inLoop = true :=
  makes_judgeTestcases fun _ h => h

theorem judgeTestcases_ne_nil {sandbox : Sandbox} {testcases : List TestCase}
    (h : testcases ≠ []) : (judgeTestcases env sandbox 1 0 0 testcases).calls ≠ [] := by
  obtain ⟨testcase, rest, rfl⟩ := List.exists_cons_of_ne_nil h
  intro hnil
  have hfirst : (runTestcase env sandbox 1 testcase).calls <+:
      (judgeTestcases env sandbox 1 0 0 (testcase :: rest)).calls :=
    Traced.calls_prefix_bind _
  rw [hnil, List.prefix_nil] at hfirst
  have hsteps : (runTestcase env sandbox 1 testcase).calls.map Call.step = _ :=
    steps_runTestcase sandbox 1 testcase
  rw [hfirst] at hsteps
  cases hsteps

end

/-! ## The calls of an iteration that enters the loop -/

/-- No call belongs to the testcase loop. -/
abbrev Outside {α : Type} (m : Run α) : Prop := m.Makes fun c => c.step.inLoop = false

theorem outside_call {env : Environment} {c : Call} (h : c.step.inLoop = false) :
    Outside (env.call c) := makes_call h

/-- The calls are those of the steps `setup`, then `loop`, then others outside the loop. -/
def Around (setup : List Step) (loop calls : List Call) : Prop :=
  ∃ pre post, calls = pre ++ (loop ++ post) ∧ pre.map Call.step = setup ∧
    ∀ c ∈ post, c.step.inLoop = false

theorem Around.refl (loop : List Call) : Around [] loop loop :=
  ⟨[], [], by simp, rfl, by simp⟩

theorem Around.after {setup : List Step} {loop calls : List Call} (h : Around setup loop calls)
    (earlier : List Call) :
    Around (earlier.map Call.step ++ setup) loop (earlier ++ calls) := by
  obtain ⟨pre, post, rfl, rfl, hpost⟩ := h
  exact ⟨earlier ++ pre, post, by simp, by simp, hpost⟩

theorem Around.before {setup : List Step} {loop calls : List Call} (h : Around setup loop calls)
    {later : List Call} (hlater : ∀ c ∈ later, c.step.inLoop = false) :
    Around setup loop (calls ++ later) := by
  obtain ⟨pre, post, rfl, rfl, hpost⟩ := h
  refine ⟨pre, post ++ later, by simp, rfl, fun c hc => ?_⟩
  exact (List.mem_append.mp hc).elim (hpost c) (hlater c)

/-- A part whose continuation stays outside the loop. -/
theorem Around.bind {α β : Type} {setup : List Step} {loop : List Call} {m : Run α}
    (h : Around setup loop m.calls) {f : α → Run β}
    (hf : ∀ a, Outside (f a)) : Around setup loop (m >>= f).calls := by
  obtain ⟨tail, htail, hout⟩ := Traced.exists_calls_bind (m := m) hf
  rw [htail]
  exact h.before hout

section

variable {cfg : Config} {env : Environment} {w : World} {submission_id : Int}
  {submission : Submission} {problem : Problem}

def loopCalls (cfg : Config) (env : Environment) (job : Job) (container : Str) : List Call :=
  (judgeTestcases env ⟨container, job.submission.language,
    executablePath cfg job.submission.language, job.limits⟩ 1 0 0 job.testcases).calls

theorem steps_compile (container : Str) (language : Language) (result : SubmissionResult) :
    (compile cfg env container language result).calls.map Call.step =
      if language = .PYTHON then [] else [.execRun] := by
  have hwith (line : Str) (f : CompileResult → Run SubmissionResult)
      (hf : ∀ r, (f r).calls = []) :
      ((compileWith cfg env container line) >>= f).calls.map Call.step = [.execRun] := by
    obtain ⟨tail, htail, hout⟩ := Traced.exists_calls_bind (m := compileWith cfg env container line)
      (f := f) (p := fun _ => False) fun r c hc => by rw [hf r] at hc; cases hc
    rw [htail, List.eq_nil_iff_forall_not_mem.mpr hout, compileWith, calls_call_bind]
    cases env.raises (Call.step (.execRun container (shell line) cfg.WORKSPACE_DIR)) <;> rfl
  cases language with
  | C => exact hwith _ _ fun _ => rfl
  | CPP => exact hwith _ _ fun _ => rfl
  | PYTHON => rfl

theorem compile_eq_ok {language : Language} (container : Str)
    (hraises : language ≠ .PYTHON → env.raises .execRun = none)
    (hcompiles : compiles env language = true) :
    (compile cfg env container language (pendingResult submission_id)).result =
      .ok (pendingResult submission_id) := by
  have hnone : compileRaises env language = none := by
    cases language with
    | PYTHON => rfl
    | _ =>
        have hexit : env.compilation.exit_code = some 0 := by simpa [compiles] using hcompiles
        simp [compileRaises, compileResult, hexit, hraises]
  obtain ⟨result, hresult⟩ := raisedBy_eq_none
    ((raised_compile cfg env container language (pendingResult submission_id)).trans hnone)
  have hcompiled := returns_compile cfg env container language submission_id result hresult
  rw [Compiled, if_pos hcompiles] at hcompiled
  rw [hresult, hcompiled]

theorem around_judge {job : Job} (h : EntersLoop env job) (container : Str) :
    Around ([.readSubmissionCode, .putArchive] ++
        if job.submission.language = .PYTHON then [] else [.execRun])
      (loopCalls cfg env job container) (judge cfg env submission_id job container).calls := by
  have hcode : env.raises .readSubmissionCode = none := h.setup _ (by simp [setupSteps])
  have harchive : env.raises .putArchive = none := h.setup _ (by simp [setupSteps])
  have hcompile : (compile cfg env container job.submission.language
      (pendingResult submission_id)).result = .ok (pendingResult submission_id) :=
    compile_eq_ok container (fun hne => h.setup _ (by simp [setupSteps, hne])) h.compiles
  have hpending : (pendingResult submission_id).verdict = .PENDING := rfl
  have hloop := ((Around.refl (loopCalls cfg env job container)).bind
    (m := judgeTestcases env ⟨container, job.submission.language,
      executablePath cfg job.submission.language, job.limits⟩ 1 0 0 job.testcases)
    (f := fun judged => Traced.ofExcept ((pendingResult submission_id).judged judged))
    fun _ => Traced.makes_ofExcept _).after
      (.readSubmissionCode job.submission.code_object_key ::
        .putArchive container cfg.WORKSPACE_DIR
          [((FILENAME job.submission.language).toList,
            env.submissionFile job.submission.code_object_key)] ::
        (compile cfg env container job.submission.language (pendingResult submission_id)).calls)
  simp only [List.map_cons, Call.step, steps_compile, List.append_nil] at hloop
  unfold judge copyCodeToContainer
  rw [Environment.call_bind hcode, Environment.call_bind harchive, ← pendingResult,
    Traced.bind_ok hcompile, if_pos hpending]
  exact hloop

theorem readJob_eq (hs : w.db.submissions submission_id = some submission)
    (hp : w.db.problems submission.problem_id = some problem)
    (hquery : ∀ table, env.raises (.query .submission table) = none) :
    readJob env w.db submission_id =
      ⟨[.query .submission .submissions, .query .submission .testcases,
        .query .submission .problems], .ok (w.db.job submission problem)⟩ := by
  have hsubmission : getSubmission env w.db submission_id =
      ⟨[.query .submission .submissions], .ok submission⟩ := by
    rw [getSubmission, Environment.call_bind (hquery _), hs]
    rfl
  have htestcases : getTestcases env w.db submission.problem_id =
      ⟨[.query .submission .testcases], .ok (w.db.testcasesOf submission.problem_id)⟩ := by
    rw [getTestcases, Environment.call_bind (hquery _)]
    rfl
  have hlimits : getTimeMemLimit env w.db submission.problem_id =
      ⟨[.query .submission .problems], .ok problem.limits⟩ := by
    rw [getTimeMemLimit, Environment.call_bind (hquery _), hp]
    rfl
  rw [readJob, hsubmission, Traced.bind_ok rfl, htestcases, Traced.bind_ok rfl, hlimits,
    Traced.bind_ok rfl]
  rfl

theorem session_eq {α : Type} {db : Session} {body : Run α} {a : α}
    {update : α → Option (Int × SubmissionResult)} (hbody : body.result = .ok a)
    (hcommit : env.raises (.commit db) = none) (hclose : env.raises (.close db) = none) :
    session env db body update =
      ⟨body.calls ++ [.commit db (update a), .close db], .ok a⟩ := by
  have hblock : (body >>= fun a => env.call (.commit db (update a)) >>= fun _ => pure a) =
      ⟨body.calls ++ [.commit db (update a)], .ok a⟩ := by
    rw [Traced.bind_ok hbody, Environment.call_bind hcommit]
    rfl
  have hend : env.call (.close db) = ⟨[.close db], .ok ()⟩ := by
    rw [Environment.call, show env.raises (Call.step (.close db)) = none from hclose]
    rfl
  rw [session, hblock, Traced.catching_ok _ rfl, Traced.ensuring, hend]
  simp

theorem around_judgeSubmission (hs : w.db.submissions submission_id = some submission)
    (hp : w.db.problems submission.problem_id = some problem)
    (h : EntersLoop env (w.db.job submission problem)) :
    ∃ container, Around
      ([.query .submission .submissions, .query .submission .testcases,
        .query .submission .problems, .commit .submission, .close .submission,
        .acquireWarmSandbox, .publishEvent, .getContainer, .readSubmissionCode, .putArchive] ++
        if submission.language = .PYTHON then [] else [.execRun])
      (loopCalls cfg env (w.db.job submission problem) container)
      (judgeSubmission cfg env w.db submission_id).calls := by
  obtain ⟨container, hcontainer⟩ := Option.ne_none_iff_exists'.mp h.sandbox
  have hsetup (s : Step) (hmem : s ∈ setupSteps submission.language) : env.raises s = none :=
    h.setup s hmem
  have hjob := readJob_eq hs hp fun table => hsetup (.query .submission table)
    (by cases table <;> simp [setupSteps])
  have hread : session env .submission (readJob env w.db submission_id) (fun _ => none) =
      ⟨[.query .submission .submissions, .query .submission .testcases,
        .query .submission .problems, .commit .submission none, .close .submission],
        .ok (w.db.job submission problem)⟩ := by
    rw [hjob]
    exact session_eq rfl (hsetup (.commit .submission) (by simp [setupSteps]))
      (hsetup (.close .submission) (by simp [setupSteps]))
  have hlookup : (env.call (.getContainer container)).catching (lookupFailed container) =
      ⟨[.getContainer container], .ok ()⟩ := by
    rw [Environment.call, show env.raises (Call.step (.getContainer container)) = none from
      hsetup .getContainer (by simp [setupSteps])]
    rfl
  have hjudge : Around _ (loopCalls cfg env (w.db.job submission problem) container)
      (judge cfg env submission_id (w.db.job submission problem) container).calls :=
    around_judge h container
  have hstop : ∀ c ∈ [Call.stopContainer container], c.step.inLoop = false := by
    simp [Call.step, Step.inLoop]
  have hall := (hjudge.before hstop).after
    [.query .submission .submissions, .query .submission .testcases,
      .query .submission .problems, .commit .submission none, .close .submission,
      .acquireWarmSandbox submission.language cfg.ACQUIRE_TIMEOUT_SECONDS,
      .publishEvent submission_id submission.language, .getContainer container]
  refine ⟨container, ?_⟩
  rw [judgeSubmission, hread, Traced.bind_ok rfl,
    Environment.call_bind (hsetup .acquireWarmSandbox (by simp [setupSteps])), hcontainer]
  dsimp only
  rw [Environment.call_bind (hsetup .publishEvent (by simp [setupSteps])), getContainer, hlookup,
    Traced.bind_ok rfl, Traced.calls_ensuring]
  exact hall

theorem outside_updateSubmissionResult (db : Database) (result : SubmissionResult) :
    Outside (updateSubmissionResult env db submission_id result) :=
  makes_session ((outside_call rfl).bind fun _ _ => Traced.makes_pure _) (fun _ _ => rfl) rfl rfl

theorem outside_handle (local? : Option Int) (e : Exc) :
    Outside (handle env local? e) := by
  unfold handle
  split_ifs
  · exact Traced.makes_pure _
  · exact Traced.makes_pure _
  · cases local? with
    | none => exact Traced.makes_raise _
    | some id =>
        exact (outside_call rfl).bind fun _ _ => (outside_call rfl).bind fun _ _ =>
          Traced.makes_pure _

theorem calls_handledWork (db : Database) :
    ∃ later, (handledWork cfg env db submission_id).calls =
        (work cfg env db submission_id).calls ++ later ∧
      ∀ c ∈ later, c.step.inLoop = false := by
  cases hwork : (work cfg env db submission_id).result with
  | ok a =>
      rw [handledWork, Traced.catching_ok _ hwork]
      exact ⟨[], (List.append_nil _).symm, by simp⟩
  | error e =>
      rw [handledWork, Traced.catching_error _ hwork]
      exact ⟨_, rfl, outside_handle _ _⟩

theorem around_run (h : Takes env w submission_id submission problem)
    (henters : EntersLoop env (w.db.job submission problem)) :
    ∃ container, Around (setupSteps submission.language)
      (loopCalls cfg env (w.db.job submission problem) container) (w.run cfg env).calls := by
  obtain ⟨container, hjudge⟩ : ∃ container, Around _
      (loopCalls cfg env (w.db.job submission problem) container)
      (judgeSubmission cfg env w.db submission_id).calls :=
    around_judgeSubmission h.submission_row h.problem_row henters
  have hprocess : Around _ (loopCalls cfg env (w.db.job submission problem) container)
      (processSubmission cfg env w.db submission_id).calls :=
    hjudge.bind fun result => (outside_updateSubmissionResult w.db result).bind fun _ _ =>
      Traced.makes_pure _
  have hdelete := hprocess.bind (f := fun result => do
      env.call (.deleteSubmission submission_id)
      return Outcome.processed result) fun _ => (outside_call rfl).bind fun _ _ =>
    Traced.makes_pure _
  have hset : env.raises .setSubmission = none := henters.setup _ (by simp [setupSteps])
  obtain ⟨later, hlater, hout⟩ : ∃ later, (handledWork cfg env w.db submission_id).calls =
      (work cfg env w.db submission_id).calls ++ later ∧ ∀ c ∈ later, c.step.inLoop = false :=
    calls_handledWork w.db
  have hall := (hdelete.before hout).after
    [.setHeartbeat, .brpop, .setSubmission submission_id]
  refine ⟨container, ?_⟩
  rw [run_eq h, hlater, work, Environment.call_bind hset]
  exact hall

/-! ## Iterations that do not enter the loop -/

theorem not_outside {c : Call} (hc : c.step.inLoop = true) : ¬ c.step.inLoop = false := by
  simp [hc]

/-- A call of the loop is made only after the call `c'` has returned. -/
theorem mem_after_call {α : Type} {c c' : Call} (hc : c.step.inLoop = true)
    (hc' : c'.step.inLoop = false) {f : Unit → Run α} (h : c ∈ (env.call c' >>= f).calls) :
    env.raises c'.step = none ∧ c ∈ (f ()).calls := by
  obtain ⟨_, hresult, hmem⟩ := Traced.exists_of_mem_calls_bind (outside_call hc')
    (not_outside hc) h
  have hraised := Traced.raised_of_ok hresult
  rw [Environment.raised_call] at hraised
  exact ⟨hraised, hmem⟩

theorem compiled_of_mem_judge {c : Call} (hc : c.step.inLoop = true) {job : Job}
    {container : Str} (h : c ∈ (judge cfg env submission_id job container).calls) :
    env.raises .readSubmissionCode = none ∧ env.raises .putArchive = none ∧
      (job.submission.language ≠ .PYTHON → env.raises .execRun = none) ∧
      compiles env job.submission.language = true ∧ job.testcases ≠ [] := by
  obtain ⟨hcode, h⟩ := mem_after_call hc rfl h
  obtain ⟨harchive, h⟩ := mem_after_call hc rfl h
  have houtside : Outside (compile cfg env container job.submission.language
      (pendingResult submission_id)) := makes_compile fun _ => rfl
  obtain ⟨result, hresult, h⟩ :=
    Traced.exists_of_mem_calls_bind houtside (not_outside hc) h
  have hcompiled := returns_compile cfg env container job.submission.language submission_id
    result hresult
  have hraised := Traced.raised_of_ok hresult
  rw [raised_compile] at hraised
  have hpending : result.verdict = .PENDING := by
    by_contra hne
    rw [if_neg hne] at h
    cases h
  rw [if_pos hpending] at h
  have h := Traced.mem_calls_of_mem_bind (p := fun c => c.step.inLoop = false)
    (fun _ => Traced.makes_ofExcept _) (not_outside hc) h
  refine ⟨hcode, harchive, fun hne => ?_, ?_, ?_⟩
  · cases hlanguage : job.submission.language with
    | PYTHON => exact absurd hlanguage hne
    | _ =>
        rw [hlanguage, compileRaises] at hraised
        exact (Option.or_eq_none_iff.mp hraised).1
  · by_contra hfails
    rw [Compiled, if_neg hfails, hpending] at hcompiled
    cases hcompiled
  · intro hnil
    rw [hnil] at h
    cases h

theorem mem_judge_of_mem_getContainer {α : Type} {c : Call} (hc : c.step.inLoop = true)
    {container : Str} {body : Run α} (h : c ∈ (getContainer env container body).calls) :
    env.raises .getContainer = none ∧ c ∈ body.calls := by
  have hlookup : Outside ((env.call (.getContainer container)).catching
      (lookupFailed container)) := by
    refine Traced.Makes.catching (outside_call rfl) fun e => ?_
    unfold lookupFailed
    split <;> exact Traced.makes_raise _
  obtain ⟨_, hresult, hmem⟩ := Traced.exists_of_mem_calls_bind hlookup (not_outside hc) h
  have hraised := Traced.raised_of_ok hresult
  rw [Traced.raised_catching, Environment.raised_call] at hraised
  refine ⟨?_, (List.mem_append.mp hmem).resolve_right fun h' => ?_⟩
  · cases hget : env.raises .getContainer with
    | none => rfl
    | some e =>
        rw [Call.step, hget, Option.bind_some, lookupFailed] at hraised
        split at hraised <;> cases hraised
  · rw [Environment.calls_call, List.mem_singleton] at h'
    rw [h'] at hc
    cases hc

/-- What has returned before a call of the loop in `process_submission`. -/
theorem entersLoop_of_mem_judgeSubmission {c : Call} (hc : c.step.inLoop = true)
    (h : Takes env w submission_id submission problem) (hset : env.raises .setSubmission = none)
    (hmem : c ∈ (judgeSubmission cfg env w.db submission_id).calls) :
    EntersLoop env (w.db.job submission problem) := by
  have hread : Outside (session env .submission (readJob env w.db submission_id)
      fun _ => none) :=
    makes_session (makes_readJob fun _ => rfl) (fun _ _ => rfl) rfl rfl
  obtain ⟨job, hjob, hmem⟩ := Traced.exists_of_mem_calls_bind hread (not_outside hc) hmem
  obtain rfl := returns_session (returns_readJob h.submission_row h.problem_row) job hjob
  have hraised := Traced.raised_of_ok hjob
  rw [raised_session_readJob h.submission_row h.problem_row] at hraised
  obtain ⟨hblock, hclose⟩ := unwound_eq_none hraised
  obtain ⟨hqueries, hcommit⟩ := Option.or_eq_none_iff.mp hblock
  obtain ⟨hsubmissions, hqueries⟩ := Option.or_eq_none_iff.mp hqueries
  obtain ⟨htestcases, hproblems⟩ := Option.or_eq_none_iff.mp hqueries
  obtain ⟨hacquire, hmem⟩ := mem_after_call hc rfl hmem
  cases hsandbox : env.sandbox with
  | none =>
      rw [hsandbox] at hmem
      cases hmem
  | some container =>
      rw [hsandbox] at hmem
      obtain ⟨hpublish, hmem⟩ := mem_after_call hc rfl hmem
      obtain ⟨hget, hmem⟩ := mem_judge_of_mem_getContainer hc hmem
      obtain ⟨hcode, harchive, hcompile, hcompiles, htests⟩ := compiled_of_mem_judge hc hmem
      refine ⟨fun s hs => ?_, by simp [hsandbox], hcompiles, htests⟩
      have hheartbeat := h.setHeartbeat
      have hbrpop := h.brpop
      simp only [Call.step] at hacquire hpublish
      simp only [setupSteps, List.mem_append, List.mem_cons, List.not_mem_nil, or_false] at hs
      rcases hs with hs | hs
      · rcases hs with rfl | rfl | rfl | rfl | rfl | rfl | rfl | rfl | rfl | rfl | rfl | rfl | rfl
          <;> assumption
      · split at hs
        · cases hs
        next hne =>
          rw [List.mem_singleton] at hs
          exact hs ▸ hcompile hne

theorem entersLoop_of_mem {c : Call} (hc : c.step.inLoop = true)
    (h : Takes env w submission_id submission problem) (hmem : c ∈ (w.run cfg env).calls) :
    EntersLoop env (w.db.job submission problem) := by
  obtain ⟨later, hlater, hout⟩ : ∃ later, (handledWork cfg env w.db submission_id).calls =
      (work cfg env w.db submission_id).calls ++ later ∧ ∀ c ∈ later, c.step.inLoop = false :=
    calls_handledWork w.db
  rw [run_eq h, hlater, List.mem_cons, List.mem_cons, List.mem_append] at hmem
  have hmem : c ∈ (work cfg env w.db submission_id).calls := by
    rcases hmem with rfl | rfl | hmem | hmem
    · cases hc
    · cases hc
    · exact hmem
    · exact absurd (hout c hmem) (not_outside hc)
  obtain ⟨hset, hmem⟩ := mem_after_call hc rfl hmem
  have hmem := Traced.mem_calls_of_mem_bind (p := fun c => c.step.inLoop = false)
    (fun _ => (outside_call rfl).bind fun _ _ => Traced.makes_pure _) (not_outside hc) hmem
  have hmem := Traced.mem_calls_of_mem_bind (p := fun c => c.step.inLoop = false)
    (fun result => (outside_updateSubmissionResult w.db result).bind fun _ _ =>
      Traced.makes_pure _) (not_outside hc) hmem
  exact entersLoop_of_mem_judgeSubmission hc h hset hmem

end

/-! ## When the worker is kept -/

section

variable {cfg : Config} {env : Environment} {w : World} {submission_id : Int}
  {submission : Submission} {problem : Problem}

theorem checkHeartbeat_eq_kept {timeout : Int} {current_time hb : ℚ} :
    checkHeartbeat timeout current_time true (some hb) = .kept ↔
      current_time - hb ≤ timeout := by
  simp [checkHeartbeat, Orchestrator.isFrozen]

theorem total_loopCalls (job : Job) (container : Str) :
    env.total ((loopCalls cfg env job container).map Call.step) =
      loopTime env job.limits 1 job.testcases :=
  total_judgeTestcases _ _ _ _ _

/-- An iteration that enters the loop: the heartbeat, the calls up to the end of the loop, and
calls outside the loop. -/
theorem calls_of_entersLoop (h : Takes env w submission_id submission problem)
    (henters : EntersLoop env (w.db.job submission problem)) :
    ∃ container pre post, (w.run cfg env).calls = .setHeartbeat ::
        ((pre ++ loopCalls cfg env (w.db.job submission problem) container) ++ post) ∧
      env.total ((.setHeartbeat ::
        (pre ++ loopCalls cfg env (w.db.job submission problem) container)).map Call.step) =
        sinceHeartbeat env (w.db.job submission problem) ∧
      (∀ c ∈ pre ++ loopCalls cfg env (w.db.job submission problem) container,
        c.step ≠ .setHeartbeat) ∧
      ∀ c ∈ post, c.step.inLoop = false := by
  obtain ⟨container, setup, post, hcalls, hsetup, hpost⟩ : ∃ container, Around _
      (loopCalls cfg env (w.db.job submission problem) container) (w.run cfg env).calls :=
    around_run h henters
  obtain ⟨first, pre, rfl, hfirst, hpre⟩ := List.map_eq_cons_iff.mp hsetup
  have hcons : first = .setHeartbeat := by
    rw [run_eq h, List.cons_append] at hcalls
    exact (List.cons.inj hcalls).1.symm
  subst hcons
  refine ⟨container, pre, post, by rw [hcalls]; simp, ?_, fun c hc => ?_, hpost⟩
  · rw [← List.cons_append, List.map_append, hsetup, total_append, total_loopCalls]
    rfl
  · rcases List.mem_append.mp hc with hc | hc
    · have hmem : c.step ∈ pre.map Call.step := List.mem_map_of_mem hc
      intro hbeat
      rw [hpre, hbeat] at hmem
      revert hmem
      cases submission.language <;> simp
    · have hloop : c.step.inLoop = true := loop_judgeTestcases c hc
      intro hbeat
      rw [hbeat] at hloop
      cases hloop

theorem after_setHeartbeat (h : Takes env w submission_id submission problem) :
    (env.after w .setHeartbeat).heartbeat = some w.now := by
  unfold Environment.after
  rw [Call.step, h.setHeartbeat]
  rfl

/-- Until the end of the loop the stored heartbeat is the time at which the iteration began. -/
theorem heartbeat_since (h : Takes env w submission_id submission problem) {calls : List Call}
    (hcalls : ∀ c ∈ calls, c.step ≠ .setHeartbeat) :
    (env.afterAll w (.setHeartbeat :: calls)).heartbeat = some w.now :=
  (afterAll_heartbeat hcalls).trans (after_setHeartbeat h)

theorem prefix_of_not_mem {α : Type} {c : α} {pre post l later : List α}
    (h : pre ++ c :: post = l ++ later) (hc : c ∉ later) : pre ++ [c] <+: l := by
  induction l generalizing pre with
  | nil =>
      rw [List.nil_append] at h
      exact absurd (h ▸ List.mem_append_right pre (List.mem_cons_self ..)) hc
  | cons x l ih =>
      cases pre with
      | nil =>
          obtain ⟨rfl, -⟩ := List.cons.inj h
          exact List.prefix_append [c] l
      | cons y pre =>
          obtain ⟨rfl, hrest⟩ := List.cons.inj h
          exact List.cons_prefix_cons.mpr ⟨rfl, ih hrest⟩

theorem total_le_total {calls calls' : List Call} (h : calls <+: calls') :
    env.total (calls.map Call.step) ≤ env.total (calls'.map Call.step) := by
  obtain ⟨rest, rfl⟩ := h
  rw [List.map_append, total_append]
  exact le_add_of_nonneg_right (total_nonneg _)

/-- At the end of the last testcase the heartbeat is as old as it gets in the loop. -/
theorem inLoopAt_end (cfg : Config) (h : Takes env w submission_id submission problem)
    (henters : EntersLoop env (w.db.job submission problem)) :
    InLoopAt cfg env w (w.now + sinceHeartbeat env (w.db.job submission problem))
      (some w.now) := by
  obtain ⟨container, pre, post, hcalls, htotal, hbeats, -⟩ := @calls_of_entersLoop cfg _ _ _ _ _
    h henters
  have hne : loopCalls cfg env (w.db.job submission problem) container ≠ [] :=
    judgeTestcases_ne_nil henters.testcases
  obtain ⟨loop, last, hloop⟩ := (List.eq_nil_or_concat' _).resolve_left hne
  have hmem : last ∈ loopCalls cfg env (w.db.job submission problem) container := by
    rw [hloop]
    simp
  rw [hloop, ← List.append_assoc] at hcalls htotal hbeats
  have hend : (env.afterAll w ((.setHeartbeat :: (pre ++ loop)) ++ [last])).now =
      w.now + sinceHeartbeat env (w.db.job submission problem) := by
    rw [afterAll_now, ← htotal, List.cons_append]
  have hbeat : (env.afterAll w (.setHeartbeat :: (pre ++ loop))).heartbeat = some w.now :=
    heartbeat_since h fun c hc => hbeats c (List.mem_append_left _ hc)
  refine ⟨.setHeartbeat :: (pre ++ loop), last, post, by rw [hcalls]; simp,
    loop_judgeTestcases last hmem, ?_, hend.ge, hbeat⟩
  rw [← hend, afterAll_now, afterAll_now]
  exact add_le_add_right (total_le_total (List.prefix_append _ _)) _

/-- Every examination in the loop comes before its end. -/
theorem kept_of_sinceHeartbeat_le {timeout : Int}
    (h : Takes env w submission_id submission problem)
    (hle : EntersLoop env (w.db.job submission problem) →
      sinceHeartbeat env (w.db.job submission problem) ≤ timeout) :
    KeptInLoop timeout cfg env w := by
  rintro current_time hb ⟨pre, c, post, hcalls, hc, -, hbefore, rfl⟩
  have hmem : c ∈ (w.run cfg env).calls := by
    rw [hcalls]
    simp
  have henters := entersLoop_of_mem hc h hmem
  obtain ⟨container, setup, later, hrun, htotal, hbeats, hlater⟩ := @calls_of_entersLoop cfg _ _ _ _ _
    h henters
  -- the call is neither the heartbeat nor after the loop
  rw [hrun] at hcalls
  cases pre with
  | nil =>
      obtain ⟨rfl, -⟩ := List.cons.inj hcalls
      cases hc
  | cons first pre =>
      obtain ⟨rfl, hrest⟩ := List.cons.inj hcalls
      have hwithin : pre ++ [c] <+: setup ++ loopCalls cfg env (w.db.job submission problem)
          container :=
        prefix_of_not_mem hrest.symm fun hmem => not_outside hc (hlater c hmem)
      have hbeat : (env.afterAll w (.setHeartbeat :: pre)).heartbeat = some w.now :=
        heartbeat_since h fun c' hc' => hbeats c' (hwithin.subset (by simp [hc']))
      rw [hbeat, checkHeartbeat_eq_kept]
      have hend : (env.afterAll w (.setHeartbeat :: pre ++ [c])).now ≤
          w.now + sinceHeartbeat env (w.db.job submission problem) := by
        rw [afterAll_now, ← htotal]
        exact add_le_add_right (total_le_total (List.cons_prefix_cons.mpr ⟨rfl, hwithin⟩)) _
      have hle := hle henters
      linarith

end

/-! ## A worker that is declared frozen -/

def twoTestcases : World where
  now := 0
  heartbeat := none
  submission := none
  jobs := [['1']]
  db := {
    submissions := fun id => if id = 1 then some ⟨['p'], .PYTHON, ['c'], pendingRow⟩ else none
    problems := fun id => if id = ['p'] then some ⟨60, 64⟩ else none
    testcases := [⟨1, ['p'], ['i'], ['o']⟩, ⟨2, ['p'], ['j'], ['o']⟩] }
  events := []
  submission_id := none

def minuteConfig : Config where
  ACQUIRE_TIMEOUT_SECONDS := 10
  WORKSPACE_DIR := ['/', 'w']

def minuteElapsed : Step → ℚ
  | .framesIter _ => 60
  | _ => 0

/-- Every execution runs for a minute and prints `1`, which is the expected output. -/
def minuteRuns : Environment where
  raises := fun _ => none
  elapsed := minuteElapsed
  elapsed_nonneg := by
    intro s
    cases s <;> simp [minuteElapsed]
  sandbox := some ['b']
  submissionFile := fun _ => []
  testcaseFile := fun _ => [0x31]
  compilation := ⟨some 0, none⟩
  execution := fun _ =>
    ⟨[(1, [0x31]), (2, [0x36, 0x30, 0x2E, 0x30, 0x30, 0x20, 0x39, 0x30, 0x30, 0x0A])], some 0⟩

def minuteJob : Job := twoTestcases.db.job ⟨['p'], .PYTHON, ['c'], pendingRow⟩ ⟨60, 64⟩

theorem minute_takes :
    Takes minuteRuns twoTestcases 1 ⟨['p'], .PYTHON, ['c'], pendingRow⟩ ⟨60, 64⟩ :=
  ⟨rfl, rfl, ⟨['1'], rfl, by decide⟩, rfl, rfl⟩

theorem minute_entersLoop : EntersLoop minuteRuns minuteJob :=
  ⟨fun _ _ => rfl, by decide, rfl, by decide⟩

theorem minute_sinceHeartbeat : sinceHeartbeat minuteRuns minuteJob = 120 := by
  decide +kernel

theorem minute_bounded : Bounded 100 60 minuteRuns where
  execution := by
    intro idx
    simp [Environment.total, executionSteps, minuteRuns, minuteElapsed]
  other := by
    intro s hs
    cases s with
    | framesIter idx => exact absurd (by simp [executionSteps]) (hs idx)
    | _ => simp [minuteRuns, minuteElapsed]
  limit := by decide

/-- With a timeout of 100 seconds the worker is declared frozen in its second testcase. -/
theorem not_neverFrozen :
    ¬ NeverFrozen ∧
      InLoopAt minuteConfig minuteRuns twoTestcases 120 (some 0) ∧
      checkHeartbeat 100 120 true (some 0) = .frozen := by
  have hat : InLoopAt minuteConfig minuteRuns twoTestcases 120 (some 0) := by
    have hend := inLoopAt_end minuteConfig minute_takes minute_entersLoop
    rw [← minuteJob, minute_sinceHeartbeat] at hend
    simpa [twoTestcases] using hend
  have hfrozen : checkHeartbeat 100 120 true (some 0) = .frozen := by decide +kernel
  refine ⟨fun hall => ?_, hat, hfrozen⟩
  have hkept := hall _ minuteConfig _ _ _ _ _ minute_takes (by decide) minute_bounded _ _ hat
  rw [hfrozen] at hkept
  cases hkept

/-! ## When a worker is kept -/

theorem keptInLoop_iff {cfg : Config} {env : Environment} {w : World} {submission_id : Int}
    {submission : Submission} {problem : Problem} {timeout : Int}
    (h : Takes env w submission_id submission problem) :
    KeptInLoop timeout cfg env w ↔
      (EntersLoop env (w.db.job submission problem) →
        sinceHeartbeat env (w.db.job submission problem) ≤ timeout) := by
  refine ⟨fun hkept henters => ?_, kept_of_sinceHeartbeat_le h⟩
  have hle := checkHeartbeat_eq_kept.mp (hkept _ _ (inLoopAt_end cfg h henters))
  rwa [add_sub_cancel_left] at hle

theorem keptInLoop_minute : KeptInLoop 120 minuteConfig minuteRuns twoTestcases := by
  apply (keptInLoop_iff minute_takes).mpr
  intro _
  rw [← minuteJob, minute_sinceHeartbeat]
  norm_num

end ByteBattles.Judge.JudgeWorker
