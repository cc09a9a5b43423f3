import ByteBattles.Judge.JudgeWorker.Exceptions

/-!
# What the pipeline finds

The verdict and the failing testcase of a result, as functions of what the compiler and
the executions answer.
-/

namespace ByteBattles.Judge.JudgeWorker

open ByteBattles.Lib

def failures : List Verdict :=
  [.WRONG_ANSWER, .TIME_LIMIT_EXCEEDED, .MEMORY_LIMIT_EXCEEDED, .RUNTIME_ERROR]

section

variable (env : Environment)

def firstFailing (limits : Limits) (idx : Nat) (testcases : List TestCase) : Option TestCase :=
  ((testcases.zipIdx idx).find? fun t => !passes env limits t.2 t.1).map Prod.fst

/-- What the result of a job says. -/
inductive Finds (job : Job) (result : SubmissionResult) : Prop
  | notCompiled (hcompiles : compiles env job.submission.language = false)
      (hverdict : result.verdict = .COMPILATION_ERROR)
      (hkey : result.incorrect_testcase_key = none)
  | accepted (hcompiles : compiles env job.submission.language = true)
      (hnone : firstFailing env job.limits 1 job.testcases = none)
      (hverdict : result.verdict = .ACCEPTED) (hkey : result.incorrect_testcase_key = none)
  | failed {testcase : TestCase} (hcompiles : compiles env job.submission.language = true)
      (hfirst : firstFailing env job.limits 1 job.testcases = some testcase)
      (hverdict : result.verdict ∈ failures)
      (hkey : result.incorrect_testcase_key = some testcase.input_key)

end

/-! ## The loop -/

section

variable {env : Environment} {limits : Limits} {idx : Nat} {testcase : TestCase}
  {testcases : List TestCase}

theorem firstFailing_cons_of_passes (h : passes env limits idx testcase = true) :
    firstFailing env limits idx (testcase :: testcases) =
      firstFailing env limits (idx + 1) testcases := by
  rw [firstFailing, List.zipIdx_cons, List.find?_cons_of_neg (by simp [h]), firstFailing]

theorem firstFailing_cons_of_fails (h : passes env limits idx testcase = false) :
    firstFailing env limits idx (testcase :: testcases) = some testcase := by
  rw [firstFailing, List.zipIdx_cons, List.find?_cons_of_pos (by simp [h])]
  rfl

theorem mem_of_firstFailing (h : firstFailing env limits idx testcases = some testcase) :
    testcase ∈ testcases := by
  obtain ⟨t, ht, rfl⟩ := Option.map_eq_some_iff.mp h
  exact List.fst_mem_of_mem_zipIdx (List.mem_of_find?_eq_some ht)

theorem verdictOf_mem (memory_kb_used memory_limit_kb : Int) (exit_code : Option Int)
    (stdout_output expected_output : Str) :
    verdictOf memory_kb_used memory_limit_kb exit_code stdout_output expected_output ∈
      .ACCEPTED :: failures := by
  unfold verdictOf
  split_ifs <;> simp [failures]

variable (env) (sandbox : Sandbox)

theorem returns_runTestcase_verdict (idx : Nat) (testcase : TestCase) :
    (runTestcase env sandbox idx testcase).Returns fun r => r.verdict ∈ .ACCEPTED :: failures := by
  iterate 10 refine Traced.returns_bind fun _ => ?_
  refine Traced.returns_ofExcept fun r hr => ?_
  rw [(runResult_eq_ok hr).1]
  exact verdictOf_mem _ _ _ _ _

/-- What the locals of the loop say after it. -/
inductive LoopFinds (idx : Nat) (testcases : List TestCase) (j : Judged) : Prop
  | accepted (hnone : firstFailing env sandbox.limits idx testcases = none)
      (hverdict : j.final_verdict = .ACCEPTED)
  | failed {testcase : TestCase} {failure : Failure}
      (hfirst : firstFailing env sandbox.limits idx testcases = some testcase)
      (hverdict : j.final_verdict ∈ failures) (hfailure : j.first_failure = some failure)
      (hkey : failure.incorrect_testcase_key = testcase.input_key)

variable {env sandbox}

theorem LoopFinds.cons {j : Judged} (hpasses : passes env sandbox.limits idx testcase = true)
    (h : LoopFinds env sandbox (idx + 1) testcases j) :
    LoopFinds env sandbox idx (testcase :: testcases) j := by
  have hsame : firstFailing env sandbox.limits idx (testcase :: testcases) =
      firstFailing env sandbox.limits (idx + 1) testcases := firstFailing_cons_of_passes hpasses
  cases h with
  | accepted hnone hverdict => exact .accepted (hsame.trans hnone) hverdict
  | failed hfirst hverdict hfailure hkey =>
      exact .failed (hsame.trans hfirst) hverdict hfailure hkey

variable (env sandbox)

theorem judgeTestcases_finds (idx : Nat) (max_runtime_ms max_memory_used_kb : Int)
    (testcases : List TestCase) :
    (judgeTestcases env sandbox idx max_runtime_ms max_memory_used_kb testcases).Returns
      (LoopFinds env sandbox idx testcases) := by
  induction testcases generalizing idx max_runtime_ms max_memory_used_kb with
  | nil => exact Traced.returns_pure (.accepted rfl rfl)
  | cons testcase testcases ih =>
      have hrun := (returns_runTestcase env sandbox idx testcase).and
        (returns_runTestcase_verdict env sandbox idx testcase)
      refine hrun.bind fun r ⟨hr, hverdict⟩ => ?_
      dsimp only
      split
      case isTrue hok =>
        have hpasses := hr.ok.symm.trans hok
        intro j hj
        exact (ih _ _ _ j hj).cons hpasses
      case isFalse hok =>
        rw [Bool.not_eq_true] at hok
        have hrejected : r.verdict ≠ .ACCEPTED := by
          simpa [hok] using hr.ok_iff
        have hfailed := (List.mem_cons.mp hverdict).resolve_left hrejected
        exact Traced.returns_pure
          (.failed (firstFailing_cons_of_fails (hr.ok.symm.trans hok)) hfailed rfl rfl)

end

/-! ## The whole pipeline -/

section

variable {cfg : Config} {env : Environment} {submission_id : Int}

theorem compiled_key (result : SubmissionResult) (r : CompileResult) :
    (result.compiled r).incorrect_testcase_key = result.incorrect_testcase_key := by
  unfold SubmissionResult.compiled
  split
  · rfl
  · rfl

theorem compile_key (container : Str) (language : Language) (result : SubmissionResult) :
    (compile cfg env container language result).Returns
      fun r => r.incorrect_testcase_key = result.incorrect_testcase_key := by
  cases language with
  | C => exact Traced.returns_bind fun r => Traced.returns_pure (compiled_key result r)
  | CPP => exact Traced.returns_bind fun r => Traced.returns_pure (compiled_key result r)
  | PYTHON => exact Traced.returns_pure rfl

theorem not_accepted_mem_failures : Verdict.ACCEPTED ∉ failures := by decide

theorem judged_finds {job : Job} {sandbox : Sandbox} {j : Judged} {r : SubmissionResult}
    (hcompiles : compiles env job.submission.language = true)
    (hlimits : sandbox.limits = job.limits) (hj : LoopFinds env sandbox 1 job.testcases j)
    (hr : (pendingResult submission_id).judged j = .ok r) : Finds env job r := by
  have hverdict := judged_verdict hr
  unfold SubmissionResult.judged at hr
  cases hj with
  | accepted hnone haccepted =>
      rw [hlimits] at hnone
      rw [haccepted] at hverdict
      simp only [haccepted, ne_eq, not_true_eq_false, if_false, Except.ok.injEq] at hr
      exact .accepted hcompiles hnone hverdict (by rw [← hr]; rfl)
  | failed hfirst hfailed hfailure hkey =>
      rw [hlimits] at hfirst
      have hrejected : j.final_verdict ≠ .ACCEPTED := by
        rintro heq
        exact not_accepted_mem_failures (heq ▸ hfailed)
      simp only [if_pos hrejected, hfailure, Except.ok.injEq] at hr
      refine .failed hcompiles hfirst (hverdict ▸ hfailed) ?_
      rw [← hr, ← hkey]

theorem judge_finds (job : Job) (container : Str) :
    (judge cfg env submission_id job container).Returns (Finds env job) := by
  refine Traced.returns_bind fun _ => Traced.returns_bind fun _ => ?_
  have hcompile := (returns_compile cfg env container job.submission.language submission_id).and
    (compile_key container job.submission.language (pendingResult submission_id))
  refine hcompile.bind fun result ⟨hresult, hkey⟩ => ?_
  unfold Compiled at hresult
  split at hresult
  case isTrue hcompiles =>
    have hpending : (pendingResult submission_id).verdict = .PENDING := rfl
    rw [hresult, if_pos hpending]
    refine (judgeTestcases_finds _ _ _ _ _ _).bind fun j hj => ?_
    exact Traced.returns_ofExcept fun r hr => judged_finds hcompiles rfl hj hr
  case isFalse hcompiles =>
    rw [if_neg (by simp [hresult])]
    rw [Bool.not_eq_true] at hcompiles
    exact Traced.returns_pure (.notCompiled hcompiles hresult hkey)

variable {db : Database} {submission : Submission} {problem : Problem}

/-- **The result names the first failing testcase**, if there is one. -/
theorem judgeSubmission_finds (hs : db.submissions submission_id = some submission)
    (hp : db.problems submission.problem_id = some problem) :
    (judgeSubmission cfg env db submission_id).Returns (Finds env (db.job submission problem)) := by
  refine (returns_session (returns_readJob hs hp)).bind ?_
  rintro _ rfl
  refine Traced.returns_bind fun _ => ?_
  split
  · exact Traced.returns_raise
  · exact Traced.returns_bind fun _ => returns_getContainer (judge_finds _ _)

end

end ByteBattles.Judge.JudgeWorker
