import ByteBattles.Judge.JudgeWorker.Measurements
import ByteBattles.Judge.JudgeWorker.Retention
import ByteBattles.Lib.Scan

/-!
# The first failing testcase

What `process_submission` stores and returns, as a function of the compile result and of the
results of the runs.
-/

namespace ByteBattles.Judge.JudgeWorker

open ByteBattles.Lib

/-! ## Executed testcases -/

def Call.executed : Call → Option Nat
  | .execStart idx => some idx
  | _ => none

def executed (calls : List Call) : List Nat := calls.filterMap Call.executed

theorem executed_append (calls calls' : List Call) :
    executed (calls ++ calls') = executed calls ++ executed calls' := List.filterMap_append

theorem executed_eq_nil {calls : List Call} (h : ∀ c ∈ calls, c.executed = none) :
    executed calls = [] := List.filterMap_eq_nil_iff.mpr h

section

variable (env : Environment)

def runOf (limits : Limits) (idx : Nat) (testcase : TestCase) : Except Exc RunResult := do
  let expected_output ← decoded (env.testcaseFile testcase.output_key)
  runResult (env.execution idx) expected_output limits.time_limit_sec limits.memory_limit_kb

def RunsOk (limits : Limits) (t : TestCase × Nat) : Prop :=
  ∃ run, runOf env limits t.2 t.1 = .ok run ∧ run.ok = true

variable {env} {sandbox : Sandbox} {idx : Nat} {testcase : TestCase}

theorem runTestcase_yields :
    (runTestcase env sandbox idx testcase).Yields fun calls run =>
      executed calls = [idx] ∧ runOf env sandbox.limits idx testcase = .ok run := by
  refine Traced.yields_call_bind (Traced.yields_ofExcept_bind fun input_data _ => ?_)
  refine Traced.yields_call_bind (Traced.yields_ofExcept_bind fun expected_output hexpected => ?_)
  unfold runProgram
  iterate 6 refine Traced.yields_call_bind ?_
  refine Traced.yields_ofExcept fun run hrun => ⟨rfl, ?_⟩
  rw [runOf, hexpected]
  exact hrun

end

/-! ## The loop -/

def judgedOf (max_runtime_ms max_memory_used_kb : Int) (runs : List RunResult)
    (failure : Option (Nat × TestCase × RunResult)) : Judged where
  final_verdict := (failure.map fun f => f.2.2.verdict).getD .ACCEPTED
  first_failure := failure.map fun f => ⟨f.1, f.2.1.input_key, f.2.2.output.take 8192⟩
  max_runtime_ms := (runs.map (·.runtime_ms)).foldl max max_runtime_ms
  max_memory_used_kb := (runs.map (·.memory_kb)).foldl max max_memory_used_kb

section

variable (env : Environment) (sandbox : Sandbox)

/-- The loop over the testcases, as a derivation. -/
abbrev Loop : Nat → List TestCase → List RunResult → Option (Nat × TestCase × RunResult) → Prop :=
  Scan (fun idx testcase run => runOf env sandbox.limits idx testcase = .ok run) RunResult.ok

variable {env sandbox}

theorem judgeTestcases_yields (idx : Nat) (max_runtime_ms max_memory_used_kb : Int)
    (testcases : List TestCase) :
    (judgeTestcases env sandbox idx max_runtime_ms max_memory_used_kb testcases).Yields
      fun calls j => ∃ runs failure, Loop env sandbox idx testcases runs failure ∧
        executed calls = List.range' idx runs.length ∧
        j = judgedOf max_runtime_ms max_memory_used_kb runs failure := by
  induction testcases generalizing idx max_runtime_ms max_memory_used_kb with
  | nil => exact Traced.yields_pure ⟨[], none, .done idx, rfl, rfl⟩
  | cons testcase testcases ih =>
      refine runTestcase_yields.bind fun calls run ⟨hcalls, hrun⟩ => ?_
      dsimp only
      split
      case isTrue hok =>
        intro j hj
        obtain ⟨runs, failure, hloop, hrest, rfl⟩ := ih _ _ _ j hj
        refine ⟨run :: runs, failure, .passed hrun hok hloop, ?_, rfl⟩
        rw [executed_append, hcalls, hrest, List.length_cons, List.range'_succ,
          List.singleton_append]
      case isFalse hok =>
        rw [Bool.not_eq_true] at hok
        refine Traced.yields_pure ⟨[run], some (idx, testcase, run), .stopped hrun hok, ?_, rfl⟩
        rw [executed_append, hcalls]
        rfl

/-- A run is ok exactly if its verdict is `ACCEPTED`. -/
theorem ok_of_runOf {limits : Limits} {idx : Nat} {testcase : TestCase} {run : RunResult}
    (h : runOf env limits idx testcase = .ok run) : run.ok = (run.verdict == .ACCEPTED) := by
  obtain ⟨expected_output, -, hrun⟩ := bind_eq_ok.mp h
  exact (runResult_eq_ok hrun).2

theorem pending_ne_of_runOf {limits : Limits} {idx : Nat} {testcase : TestCase}
    {run : RunResult} (h : runOf env limits idx testcase = .ok run) : run.verdict ≠ .PENDING := by
  obtain ⟨expected_output, -, hrun⟩ := bind_eq_ok.mp h
  rw [(runResult_eq_ok hrun).1]
  exact verdictOf_ne_pending _ _ _ _ _

end

/-! ## Explained results -/

def executedRuns (env : Environment) (job : Job) (ran : List Nat) : Set RunResult :=
  {run | ∃ t ∈ job.testcases.zipIdx 1, t.2 ∈ ran ∧
    runOf env job.limits t.2 t.1 = .ok run}

/-- The first testcase that fails, and what the result says about it. -/
structure FirstFailure (env : Environment) (job : Job) (ran : List Nat)
    (result : SubmissionResult) (before : List TestCase) (testcase : TestCase)
    (run : RunResult) : Prop where
  runs : runOf env job.limits (before.length + 1) testcase = .ok run
  fails : run.ok = false
  before_ok : ∀ t ∈ before.zipIdx 1, RunsOk env job.limits t
  verdict : result.verdict = run.verdict
  idx : result.incorrect_testcase_idx = some ((before.length + 1 : Nat) : Int)
  key : result.incorrect_testcase_key = some testcase.input_key
  output : result.output = some (run.output.take 8192)
  executed : ran = List.range' 1 (before.length + 1)

structure RunsExplain (env : Environment) (job : Job) (ran : List Nat)
    (result : SubmissionResult) : Prop where
  accepted_iff :
    result.verdict = .ACCEPTED ↔ ∀ t ∈ job.testcases.zipIdx 1, RunsOk env job.limits t
  accepted : result.verdict = .ACCEPTED →
    ran = List.range' 1 job.testcases.length
  failed : result.verdict ≠ .ACCEPTED → ∃ before testcase after run,
    job.testcases = before ++ testcase :: after ∧
      FirstFailure env job ran result before testcase run
  runtime_ms : ∃ ms, result.runtime_ms = some ms ∧
    IsGreatest (insert 0 {x | ∃ run ∈ executedRuns env job ran, run.runtime_ms = x}) ms
  memory_kb : ∃ kb, result.memory_kb = some kb ∧
    IsGreatest (insert 0 {x | ∃ run ∈ executedRuns env job ran, run.memory_kb = x}) kb

structure CompilerExplains (env : Environment) (ran : List Nat) (result : SubmissionResult) :
    Prop where
  verdict : result.verdict = .COMPILATION_ERROR
  output : ∃ compile_result, compileResult env.compilation = .ok compile_result ∧
    compile_result.ok = false ∧ result.output = some compile_result.output
  executed : ran = []

structure Explained (env : Environment) (job : Job) (ran : List Nat)
    (result : SubmissionResult) : Prop where
  judged : result.verdict ≠ .PENDING
  not_compiled : compiles env job.submission.language = false →
    CompilerExplains env ran result
  compiled : compiles env job.submission.language = true → RunsExplain env job ran result

section

variable {env : Environment} {job : Job} {sandbox : Sandbox} {submission_id : Int}
  {ran : List Nat} {runs : List RunResult} {result : SubmissionResult}

theorem mem_executedRuns_iff {failure : Option (Nat × TestCase × RunResult)}
    (hloop : Loop env sandbox 1 job.testcases runs failure) (hlimits : sandbox.limits = job.limits)
    (hran : ran = List.range' 1 runs.length) (run : RunResult) :
    run ∈ executedRuns env job ran ↔ run ∈ runs := by
  unfold executedRuns
  rw [hran, ← hlimits]
  constructor
  · rintro ⟨t, ht, hidx, hrun⟩
    obtain ⟨run', hmem, hrun'⟩ := hloop.exists_mem ht (List.mem_range'_1.mp hidx).2
    rwa [Except.ok.inj (hrun.symm.trans hrun')]
  · intro hmem
    obtain ⟨t, ht, hlt, hrun⟩ := hloop.exists_of_mem hmem
    exact ⟨t, ht, List.mem_range'_1.mpr ⟨(List.mem_zipIdx ht).1, hlt⟩, hrun⟩

/-- The accumulators are maxima. -/
theorem isGreatest_accumulated {failure : Option (Nat × TestCase × RunResult)}
    (hloop : Loop env sandbox 1 job.testcases runs failure) (hlimits : sandbox.limits = job.limits)
    (hran : ran = List.range' 1 runs.length) (f : RunResult → Int) :
    IsGreatest (insert 0 {x | ∃ run ∈ executedRuns env job ran, f run = x})
      ((runs.map f).foldl max 0) := by
  have hset : insert 0 {x | ∃ run ∈ executedRuns env job ran, f run = x} =
      {x | x ∈ 0 :: runs.map f} := by
    ext x
    simp [mem_executedRuns_iff hloop hlimits hran]
  rw [hset]
  exact isGreatest_foldl_max 0 (runs.map f)

theorem RunsExplain.of_none (hloop : Loop env sandbox 1 job.testcases runs none)
    (hlimits : sandbox.limits = job.limits)
    (hran : ran = List.range' 1 runs.length)
    (h : (pendingResult submission_id).judged (judgedOf 0 0 runs none) = .ok result) :
    RunsExplain env job ran result := by
  obtain ⟨hlength, hall⟩ := hloop.of_none
  obtain rfl := Except.ok.inj h
  constructor
  case accepted_iff => exact ⟨fun _ t ht => hlimits ▸ hall t ht, fun _ => rfl⟩
  case accepted => exact fun _ => hlength ▸ hran
  case failed => exact fun hne => absurd rfl hne
  case runtime_ms => exact ⟨_, rfl, isGreatest_accumulated hloop hlimits hran _⟩
  case memory_kb => exact ⟨_, rfl, isGreatest_accumulated hloop hlimits hran _⟩

theorem RunsExplain.of_some {k : Nat} {testcase : TestCase} {run : RunResult}
    (hloop : Loop env sandbox 1 job.testcases runs (some (k, testcase, run)))
    (hlimits : sandbox.limits = job.limits)
    (hran : ran = List.range' 1 runs.length)
    (h : (pendingResult submission_id).judged (judgedOf 0 0 runs (some (k, testcase, run))) =
      .ok result) : RunsExplain env job ran result := by
  obtain ⟨before, after, htestcases, hlength, rfl, hrun, hfails, hbefore⟩ := hloop.of_some
  rw [hlimits, Nat.add_comm] at hrun
  have hverdict : run.verdict ≠ .ACCEPTED := by
    simpa [hfails] using ok_of_runOf hrun
  unfold SubmissionResult.judged judgedOf at h
  simp only [Option.map_some, Option.getD_some, if_pos hverdict, Except.ok.injEq] at h
  have hfirst : FirstFailure env job ran result before testcase run := by
    subst h
    exact ⟨hrun, hfails, hlimits ▸ hbefore, rfl, by simp [Nat.add_comm], rfl, rfl,
      hlength ▸ hran⟩
  have hrejected : result.verdict ≠ .ACCEPTED := hfirst.verdict ▸ hverdict
  constructor
  case accepted_iff =>
    refine ⟨fun haccepted => absurd haccepted hrejected, fun hall => ?_⟩
    obtain ⟨run', hrun', hok⟩ := hall (testcase, before.length + 1) (by
      rw [htestcases, List.zipIdx_append, List.zipIdx_cons, Nat.add_comm 1]
      simp)
    rw [Except.ok.inj (hrun'.symm.trans hrun), hfails] at hok
    cases hok
  case accepted => exact fun haccepted => absurd haccepted hrejected
  case failed => exact fun _ => ⟨before, testcase, after, run, htestcases, hfirst⟩
  case runtime_ms =>
    refine ⟨_, ?_, isGreatest_accumulated hloop hlimits hran _⟩
    rw [← h]
  case memory_kb =>
    refine ⟨_, ?_, isGreatest_accumulated hloop hlimits hran _⟩
    rw [← h]

theorem explained_of_loop {failure : Option (Nat × TestCase × RunResult)}
    (hcompiles : compiles env job.submission.language = true)
    (hloop : Loop env sandbox 1 job.testcases runs failure) (hlimits : sandbox.limits = job.limits)
    (hran : ran = List.range' 1 runs.length)
    (h : (pendingResult submission_id).judged (judgedOf 0 0 runs failure) = .ok result) :
    Explained env job ran result where
  judged := by
    rw [judged_verdict h]
    cases failure with
    | none => simp [judgedOf]
    | some failure =>
        obtain ⟨k, testcase, run⟩ := failure
        obtain ⟨before, after, -, -, -, hrun, -, -⟩ := hloop.of_some
        exact pending_ne_of_runOf hrun
  not_compiled := by
    intro hcontra
    rw [hcompiles] at hcontra
    cases hcontra
  compiled := by
    intro _
    cases failure with
    | none => exact .of_none hloop hlimits hran h
    | some failure => exact .of_some hloop hlimits hran h

end

/-! ## The pipeline -/

section

variable {cfg : Config} {env : Environment} {submission_id : Int}

inductive CompileYields (env : Environment) (language : Language) (submission_id : Int)
    (result : SubmissionResult) : Prop
  | compiled (hcompiles : compiles env language = true)
      (hresult : result = pendingResult submission_id)
  | failed {compile_result : CompileResult} (hcompiles : compiles env language = false)
      (hcompile : compileResult env.compilation = .ok compile_result)
      (hok : compile_result.ok = false)
      (hverdict : result.verdict = .COMPILATION_ERROR)
      (houtput : result.output = some compile_result.output)

theorem compileYields_compiled {language : Language} {r : CompileResult}
    (hcompile : compileResult env.compilation = .ok r) (hok : r.ok = compiles env language) :
    CompileYields env language submission_id ((pendingResult submission_id).compiled r) := by
  unfold SubmissionResult.compiled
  split
  case isTrue htrue => exact .compiled (hok.symm.trans htrue) rfl
  case isFalse hfalse =>
    rw [Bool.not_eq_true] at hfalse
    exact .failed (hok.symm.trans hfalse) hcompile hfalse rfl rfl

theorem returns_compileYields (container : Str) (language : Language) :
    (compile cfg env container language (pendingResult submission_id)).Returns
      (CompileYields env language submission_id) := by
  apply returns_compile_of
  · intro r hcompile hok
    exact compileYields_compiled hcompile hok
  · intro hcompiles
    exact .compiled hcompiles rfl

abbrev NoneExecuted {α : Type} (m : Run α) : Prop := m.Makes fun c => c.executed = none

/-- If the part returns, `R` holds of the testcases that it has executed and of its value. -/
abbrev Executes {α : Type} (m : Run α) (R : List Nat → α → Prop) : Prop :=
  m.Yields fun calls => R (executed calls)

theorem executes_bind {α β : Type} {m : Run α} {f : α → Run β} {Q : α → Prop}
    {R : List Nat → β → Prop} (hm : NoneExecuted m) (hQ : m.Returns Q)
    (hf : ∀ a, Q a → Executes (f a) R) : Executes (m >>= f) R := by
  refine (hm.yields hQ).bind fun calls a ⟨hcalls, ha⟩ => ?_
  simp only [executed_append, executed_eq_nil hcalls, List.nil_append]
  exact hf a ha

theorem executes_call_bind {β : Type} {c : Call} {f : Unit → Run β} {R : List Nat → β → Prop}
    (hc : c.executed = none) (hf : Executes (f ()) R) : Executes (env.call c >>= f) R :=
  executes_bind (Q := fun _ => True) (Traced.makes_call hc) (fun _ _ => trivial) fun _ _ => hf

theorem executes_getContainer {α : Type} {container_id : Str} {body : Run α}
    {R : List Nat → α → Prop} (h : Executes body R) :
    Executes (getContainer env container_id body) R := by
  refine executes_bind (Q := fun _ => True) ?_ (fun _ _ => trivial) fun _ _ => ?_
  · have hget : (Call.getContainer container_id).executed = none := rfl
    refine Traced.Makes.catching (makes_call hget) fun e => ?_
    unfold lookupFailed
    split <;> exact Traced.makes_raise _
  · apply Traced.Yields.ensuring
    intro a ha
    have hstop : executed (env.call (.stopContainer container_id)).calls = [] := rfl
    rw [executed_append, hstop, List.append_nil]
    exact h a ha

theorem judge_executes (job : Job) (container : Str) :
    Executes (judge cfg env submission_id job container) (Explained env job) := by
  refine executes_call_bind rfl (executes_call_bind rfl ?_)
  refine executes_bind (makes_compile fun _ => rfl)
    (returns_compileYields container job.submission.language) fun result hresult => ?_
  cases hresult with
  | compiled hcompiles hresult =>
      have hpending : (pendingResult submission_id).verdict = .PENDING := rfl
      rw [hresult, if_pos hpending]
      refine (judgeTestcases_yields 1 0 0 job.testcases).bind ?_
      rintro calls j ⟨runs, failure, hloop, hcalls, rfl⟩
      refine Traced.yields_ofExcept fun result hresult => ?_
      rw [List.append_nil]
      exact explained_of_loop hcompiles hloop rfl hcalls hresult
  | failed hcompiles hcompile hok hverdict houtput =>
      rw [if_neg (by simp [hverdict])]
      refine Traced.yields_pure ⟨by simp [hverdict], fun _ => ?_, fun hcontra => ?_⟩
      · exact ⟨hverdict, ⟨_, hcompile, hok, houtput⟩, rfl⟩
      · rw [hcompiles] at hcontra
        cases hcontra

variable {db : Database}

theorem returns_getSubmission_iff :
    (getSubmission env db submission_id).Returns fun submission =>
      db.submissions submission_id = some submission := by
  refine Traced.returns_bind fun _ => ?_
  split
  case h_1 submission hs => exact Traced.returns_pure hs
  case h_2 => exact Traced.returns_raise

theorem returns_getTimeMemLimit_iff (problem_id : Str) :
    (getTimeMemLimit env db problem_id).Returns fun limits =>
      ∃ problem, db.problems problem_id = some problem ∧ limits = problem.limits := by
  refine Traced.returns_bind fun _ => ?_
  split
  case h_1 problem hp => exact Traced.returns_pure ⟨problem, hp, rfl⟩
  case h_2 => exact Traced.returns_raise

/-- A job is read from rows that exist. -/
theorem returns_readJob_iff :
    (readJob env db submission_id).Returns fun job => ∃ submission problem,
      db.submissions submission_id = some submission ∧
        db.problems submission.problem_id = some problem ∧ job = db.job submission problem := by
  refine returns_getSubmission_iff.bind fun submission hs => ?_
  refine (returns_getTestcases submission.problem_id).bind ?_
  rintro _ rfl
  refine (returns_getTimeMemLimit_iff submission.problem_id).bind ?_
  rintro _ ⟨problem, hp, rfl⟩
  exact Traced.returns_pure ⟨submission, problem, hs, hp, rfl⟩

theorem judgeSubmission_executes :
    Executes (judgeSubmission cfg env db submission_id) fun ran result =>
      ∃ submission problem, db.submissions submission_id = some submission ∧
        db.problems submission.problem_id = some problem ∧
        Explained env (db.job submission problem) ran result := by
  refine executes_bind (makes_session (makes_readJob fun _ => rfl) (fun _ _ => rfl) rfl rfl)
    (returns_session returns_readJob_iff) ?_
  rintro job ⟨submission, problem, hs, hp, rfl⟩
  refine executes_call_bind rfl ?_
  split
  · exact fun _ h => nomatch h
  · refine executes_call_bind rfl (executes_getContainer ?_)
    intro result hresult
    exact ⟨submission, problem, hs, hp, judge_executes _ _ result hresult⟩

/-- A write that returns has stored the result, if the row exists. -/
theorem updateSubmissionResult_yields {submission : Submission} {result : SubmissionResult}
    (hs : db.submissions submission_id = some submission) :
    (updateSubmissionResult env db submission_id result).Yields fun calls _ =>
      env.raises (.commit .result) = none ∧
        calls = [.query .result .submissions, .commit .result (some (submission_id, result)),
          .close .result] := by
  intro found hfound
  have hraised := Traced.raised_of_ok hfound
  rw [raised_updateSubmissionResult] at hraised
  have hwrite := (unwound_eq_none hraised).1
  exact ⟨(Option.or_eq_none_iff.mp hwrite).2, calls_updateSubmissionResult hwrite hs⟩

def Stores (env : Environment) (db : Database) (submission_id : Int) (submission : Submission)
    (calls : List Call) (result : SubmissionResult) : Prop :=
  ∀ w : World, w.db = db → (env.afterAll w calls).db.submissions submission_id =
    some { submission with result := assigned result }

theorem stores_of_commit {submission : Submission} {result : SubmissionResult}
    {pre post : List Call} (hs : db.submissions submission_id = some submission)
    (hcommit : env.raises (.commit .result) = none) (hpre : ∀ c ∈ pre, c.quiet = true)
    (hpost : ∀ c ∈ post, c.quiet = true) :
    Stores env db submission_id submission
      (pre ++ .commit .result (some (submission_id, result)) :: post) result := by
  rintro w rfl
  rw [Environment.afterAll_append]
  have hbefore : w.Same (env.afterAll w pre) :=
    Environment.afterAll_same (fun c hc => .inl (hpre c hc)) w
  let stored := env.after (env.afterAll w pre) (.commit .result (some (submission_id, result)))
  have hafter : stored.Same (env.afterAll stored post) :=
    Environment.afterAll_same (fun c hc => .inl (hpost c hc)) stored
  rw [← hbefore.db] at hs
  refine (congrFun (congrArg Database.submissions hafter.db) submission_id).trans ?_
  simp [stored, Environment.after, Call.step, hcommit, Call.effect, Database.store, World.wait, hs]

theorem processSubmission_yields :
    (processSubmission cfg env db submission_id).Yields fun calls result =>
      ∃ submission problem, db.submissions submission_id = some submission ∧
        db.problems submission.problem_id = some problem ∧
        Explained env (db.job submission problem) (executed calls) result ∧
        Stores env db submission_id submission calls result := by
  refine (judgeSubmission_executes.and_makes (quiet_judgeSubmission db submission_id)).bind ?_
  rintro calls result ⟨⟨submission, problem, hs, hp, hexplained⟩, hquiet⟩
  refine (updateSubmissionResult_yields hs).bind ?_
  rintro calls' _ ⟨hcommit, rfl⟩
  refine Traced.yields_pure ⟨submission, problem, hs, hp, ?_, ?_⟩
  · have hwrite : executed [.query .result .submissions,
        .commit .result (some (submission_id, result)), .close .result] = [] := rfl
    rw [List.append_nil, executed_append, hwrite, List.append_nil]
    exact hexplained
  · have hpre : ∀ c ∈ calls ++ [.query .result .submissions], c.quiet = true := by
      intro c hc
      rcases List.mem_append.mp hc with hc | hc
      · exact hquiet c hc
      · rw [List.mem_singleton.mp hc]
        rfl
    have hpost : ∀ c ∈ [Call.close .result], c.quiet = true := by simp [Call.quiet]
    simpa using @stores_of_commit env submission_id db submission result _ _ hs hcommit hpre hpost

theorem Database.pairwise_testcasesOf (db : Database) (problem_id : Str) :
    (db.testcasesOf problem_id).Pairwise (·.id ≤ ·.id) :=
  @List.pairwise_insertionSort _ (fun t t' : TestCase => t.id ≤ t'.id) _
    ⟨fun _ _ => Int.le_total _ _⟩ ⟨fun _ _ _ => Int.le_trans⟩ _

/-- **The verdict is that of the first failing testcase.** -/
theorem verdict_of_first_failure {result : SubmissionResult}
    (h : (processSubmission cfg env db submission_id).result = .ok result) :
    ∃ submission problem, db.submissions submission_id = some submission ∧
      db.problems submission.problem_id = some problem ∧
      Explained env (db.job submission problem)
        (executed (processSubmission cfg env db submission_id).calls) result ∧
      Stores env db submission_id submission
        (processSubmission cfg env db submission_id).calls result ∧
      (db.job submission problem).testcases.Pairwise (·.id ≤ ·.id) ∧
      (db.job submission problem).testcases.Perm
        (db.testcases.filter (·.problem_id = submission.problem_id)) ∧
      ∀ sandbox idx max_runtime_ms max_memory_used_kb testcases,
        (judgeTestcases env sandbox idx max_runtime_ms max_memory_used_kb testcases).Returns
          fun j => j.final_verdict ≠ .ACCEPTED → j.first_failure ≠ none := by
  obtain ⟨submission, problem, hs, hp, hexplained, hstores⟩ := processSubmission_yields result h
  refine ⟨submission, problem, hs, hp, hexplained, hstores, db.pairwise_testcasesOf _,
    List.perm_insertionSort _ _, ?_⟩
  intro sandbox idx max_runtime_ms max_memory_used_kb testcases j hj hrejected
  exact Option.isSome_iff_ne_none.mp ((returns_judgeTestcases _ _ _ _ _ _ j hj).2 hrejected)

/-! ## A failure in the middle -/

def threeTestcases : Database :=
  { oneTestcase with
    testcases := [⟨3, ['p'], ['i', '3'], ['o', '3']⟩, ⟨4, ['q'], ['i', '4'], ['o', '4']⟩,
      ⟨1, ['p'], ['i', '1'], ['o', '1']⟩, ⟨2, ['p'], ['i', '2'], ['o', '2']⟩] }

def printsOne : Environment :=
  { leaving ⟨[], some 0⟩ with
    testcaseFile := fun key => if key = ['o', '1'] then [49] else [50]
    execution := fun idx => ⟨[(1, [49, 10]),
      (2, Utf8.encode (if idx = 1 then "0.02 9000\n" else "0.01 8000\n").toList)], some 0⟩ }

def secondFails : SubmissionResult where
  submission_id := 1
  verdict := .WRONG_ANSWER
  output := some ['1', '\n']
  incorrect_testcase_idx := some 2
  incorrect_testcase_key := some ['i', '2']
  runtime_ms := some 0
  memory_kb := some 9000

theorem processSubmission_printsOne :
    (processSubmission anyConfig printsOne threeTestcases 1).result = .ok secondFails := by
  decide +kernel

theorem verdict_of_first_failure_secondFails :
    executed (processSubmission anyConfig printsOne threeTestcases 1).calls = [1, 2] ∧
    ∃ submission problem, threeTestcases.submissions 1 = some submission ∧
      threeTestcases.problems submission.problem_id = some problem ∧
      Explained printsOne (threeTestcases.job submission problem)
        (executed (processSubmission anyConfig printsOne threeTestcases 1).calls) secondFails := by
  obtain ⟨submission, problem, hs, hp, hexplained, -⟩ :=
    verdict_of_first_failure processSubmission_printsOne
  exact ⟨by decide +kernel, submission, problem, hs, hp, hexplained⟩

/-! ## A negative limit -/

def negativeLimit : Database :=
  { oneTestcase with problems := fun id => if id = ['p'] then some ⟨-1, 64⟩ else none }

/-- `timeout` refuses a negative duration. -/
def refused : ExecSession :=
  ⟨[(2, Utf8.encode "timeout: invalid option -- '1'\n".toList),
    (2, Utf8.encode "Try 'timeout --help' for more information.\n".toList),
    (2, Utf8.encode "Command exited with non-zero status 125\n0.00 1800\n".toList)], some 125⟩

def refusedResult : SubmissionResult where
  submission_id := 1
  verdict := .RUNTIME_ERROR
  output := some []
  incorrect_testcase_idx := some 1
  incorrect_testcase_key := some ['i']
  runtime_ms := some 0
  memory_kb := some 1800

theorem processSubmission_refused :
    (processSubmission anyConfig (leaving refused) negativeLimit 1).result =
      .ok refusedResult := by
  decide +kernel

theorem runOf_refused :
    runOf (leaving refused) ⟨-1, 65536⟩ 1 ⟨1, ['p'], ['i'], ['o']⟩ =
      .ok ⟨false, .RUNTIME_ERROR, [], some 125, -1000, 1800⟩ := by
  decide +kernel

/-- The only run has taken -1000 milliseconds, and 0 is returned.  The row has no index. -/
theorem not_verdict_of_first_failure :
    (¬ ∀ cfg env db submission_id submission problem (result : SubmissionResult),
      db.submissions submission_id = some submission →
      db.problems submission.problem_id = some problem →
      (processSubmission cfg env db submission_id).result = .ok result →
      executed (processSubmission cfg env db submission_id).calls ≠ [] →
      ∀ ms, result.runtime_ms = some ms →
        IsGreatest {x | ∃ run ∈ executedRuns env (db.job submission problem)
          (executed (processSubmission cfg env db submission_id).calls), run.runtime_ms = x} ms) ∧
    ¬ ∀ r r' : SubmissionResult, assigned r = assigned r' →
      r.incorrect_testcase_idx = r'.incorrect_testcase_idx := by
  constructor
  · intro hall
    obtain ⟨⟨run, ⟨t, ht, -, hrun⟩, hzero⟩, -⟩ := hall anyConfig (leaving refused) negativeLimit 1
      ⟨['p'], .PYTHON, ['c'], pendingRow⟩ ⟨-1, 64⟩ refusedResult rfl rfl
      processSubmission_refused (by decide +kernel) 0 rfl
    have ht : t = (⟨1, ['p'], ['i'], ['o']⟩, 1) := List.mem_singleton.mp ht
    subst ht
    obtain rfl := Except.ok.inj (hrun.symm.trans runOf_refused)
    exact absurd hzero (by decide)
  · intro hall
    exact absurd (hall refusedResult { refusedResult with incorrect_testcase_idx := some 2 }
      (funext fun c => by cases c <;> rfl)) (by decide)

end

end ByteBattles.Judge.JudgeWorker
