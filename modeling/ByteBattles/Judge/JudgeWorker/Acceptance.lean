import ByteBattles.Judge.JudgeWorker.FirstFailure
import ByteBattles.Judge.JudgeWorker.Usage

/-!
# Accepted submissions

What has to hold of a problem so that some program is accepted.
-/

namespace ByteBattles.Judge.JudgeWorker

open ByteBattles.Lib

/-! ## Runs without a fault -/

structure Environment.Calm (env : Environment) (language : Language) : Prop where
  raises : ∀ step, env.raises step = none
  sandbox : env.sandbox.isSome = true
  compiles : compiles env language = true

def Environment.Decodes (env : Environment) (key : Str) : Prop :=
  ∃ s, decoded (env.testcaseFile key) = .ok s

section

variable {cfg : Config} {env : Environment} {limits : Limits} {idx : Nat} {testcase : TestCase}
  {testcases : List TestCase}

theorem runsOk_iff {t : TestCase × Nat} :
    RunsOk env limits t ↔ ∃ expected_output m,
      decoded (env.testcaseFile t.1.output_key) = .ok expected_output ∧
      measurements (env.execution t.2).stderr limits.time_limit_sec limits.memory_limit_kb =
        .ok m ∧
      verdictOf m.2 limits.memory_limit_kb (env.execution t.2).exit_code
        (env.execution t.2).stdout expected_output = .ACCEPTED := by
  constructor
  · rintro ⟨run, hrun, hok⟩
    obtain ⟨expected_output, hexpected, hrun⟩ := bind_eq_ok.mp hrun
    obtain ⟨m, hm, rfl⟩ := runResult_eq_ok_iff.mp hrun
    exact ⟨expected_output, m, hexpected, hm, beq_iff_eq.mp hok⟩
  · rintro ⟨expected_output, m, hexpected, hm, hverdict⟩
    have hrun := (@runResult_eq_ok_iff _ expected_output _ _ _).mpr ⟨m, hm, rfl⟩
    exact ⟨_, bind_eq_ok.mpr ⟨expected_output, hexpected, hrun⟩, beq_iff_eq.mpr hverdict⟩

theorem passes_of_runsOk (h : RunsOk env limits (testcase, idx)) :
    passes env limits idx testcase = true := by
  obtain ⟨expected_output, m, hexpected, hm, hverdict⟩ := runsOk_iff.mp h
  simp only [passes, hm, hexpected, hverdict, beq_self_eq_true]

/-- Without a fault, a testcase raises only what the reading of its files and of its
measurements raises. -/
theorem testcaseRaises_eq_none (hraises : ∀ step, env.raises step = none) :
    testcaseRaises env limits idx testcase = none ↔
      env.Decodes testcase.input_key ∧ env.Decodes testcase.output_key ∧
        ∃ m, measurements (env.execution idx).stderr limits.time_limit_sec
          limits.memory_limit_kb = .ok m := by
  simp only [testcaseRaises, hraises, Option.none_or, Option.or_eq_none_iff, raisedBy_eq_none_iff]
  rfl

/-- If every testcase passes, the loop reaches all of them. -/
theorem testcasesRaise_eq_none
    (h : ∀ t ∈ testcases.zipIdx idx, passes env limits t.2 t.1 = true) :
    testcasesRaise env limits idx testcases = none ↔
      ∀ t ∈ testcases.zipIdx idx, testcaseRaises env limits t.2 t.1 = none := by
  induction testcases generalizing idx with
  | nil => simp [testcasesRaise]
  | cons testcase testcases ih =>
      rw [List.zipIdx_cons, List.forall_mem_cons] at h
      rw [testcasesRaise, if_pos h.1, Option.or_eq_none_iff, ih h.2, List.zipIdx_cons,
        List.forall_mem_cons]

theorem judgeSubmissionRaises_of_calm {job : Job} (h : env.Calm job.submission.language) :
    judgeSubmissionRaises env job = testcasesRaise env job.limits 1 job.testcases := by
  obtain ⟨container, hcontainer⟩ := Option.isSome_iff_exists.mp h.sandbox
  have hcompile : compileRaises env job.submission.language = none := by
    have hcompiles := h.compiles
    cases hlanguage : job.submission.language with
    | PYTHON => rfl
    | _ =>
        rw [hlanguage] at hcompiles
        have hexit : env.compilation.exit_code = some 0 := by simpa [compiles] using hcompiles
        simp [compileRaises, h.raises, compileResult, hexit]
  simp [judgeSubmissionRaises, readRaises, unwound, sandboxRaises, hcontainer, lookupRaises,
    judgeRaises, h.raises, hcompile, h.compiles]

structure Accepts (env : Environment) (limits : Limits) (t : TestCase × Nat) : Prop where
  input : env.Decodes t.1.input_key
  runs : RunsOk env limits t

theorem Accepts.testcaseRaises (hraises : ∀ step, env.raises step = none)
    (h : Accepts env limits (testcase, idx)) : testcaseRaises env limits idx testcase = none := by
  obtain ⟨expected_output, m, hexpected, hm, -⟩ := runsOk_iff.mp h.runs
  exact (testcaseRaises_eq_none hraises).mpr ⟨h.input, ⟨expected_output, hexpected⟩, m, hm⟩

variable {db : Database} {submission_id : Int} {submission : Submission} {problem : Problem}

def Accepted (cfg : Config) (env : Environment) (db : Database) (submission_id : Int) : Prop :=
  ∃ result, (processSubmission cfg env db submission_id).result = .ok result ∧
    result.verdict = .ACCEPTED

/-- Without a fault, a submission is accepted exactly if every testcase is. -/
theorem accepted_iff (hcalm : env.Calm submission.language)
    (hs : db.submissions submission_id = some submission)
    (hp : db.problems submission.problem_id = some problem) :
    Accepted cfg env db submission_id ↔
      ∀ t ∈ (db.testcasesOf submission.problem_id).zipIdx 1, Accepts env problem.limits t := by
  have hraised : (processSubmission cfg env db submission_id).raised =
      testcasesRaise env problem.limits 1 (db.testcasesOf submission.problem_id) := by
    rw [raised_processSubmission hs hp, judgeSubmissionRaises_of_calm hcalm]
    simp [unwound, writeRaises, hcalm.raises, Database.job]
  have hexplained (result : SubmissionResult)
      (hresult : (processSubmission cfg env db submission_id).result = .ok result) :
      result.verdict = .ACCEPTED ↔
        ∀ t ∈ (db.testcasesOf submission.problem_id).zipIdx 1, RunsOk env problem.limits t := by
    obtain ⟨submission', problem', hs', hp', hexplained, -⟩ :=
      processSubmission_yields result hresult
    obtain rfl := Option.some.inj (hs.symm.trans hs')
    obtain rfl := Option.some.inj (hp.symm.trans hp')
    exact (hexplained.compiled hcalm.compiles).accepted_iff
  constructor
  · rintro ⟨result, hresult, hverdict⟩ t ht
    have hruns := (hexplained result hresult).mp hverdict
    have hnone := Traced.raised_of_ok hresult
    rw [hraised, testcasesRaise_eq_none fun t ht => passes_of_runsOk (hruns t ht)] at hnone
    exact ⟨((testcaseRaises_eq_none hcalm.raises).mp (hnone t ht)).1, hruns t ht⟩
  · intro h
    have hnone : (processSubmission cfg env db submission_id).raised = none := by
      rw [hraised, testcasesRaise_eq_none fun t ht => passes_of_runsOk (h t ht).runs]
      exact fun t ht => (h t ht).testcaseRaises hcalm.raises
    obtain ⟨result, hresult⟩ := raisedBy_eq_none hnone
    exact ⟨result, hresult, (hexplained result hresult).mpr fun t ht => (h t ht).runs⟩

end

/-! ## Behaviours -/

structure Behaves (session : ExecSession) : Prop where
  exit_code : session.exit_code = some 0
  usage : ∃ u : Usage, u.Ends session.stderr ∧ 0 < u.memory_kb

def printing (stdout : List Byte) : ExecSession :=
  ⟨[(1, stdout), (2, Utf8.encode "0.00 1\n".toList)], some 0⟩

def leastUsage : Usage := ⟨0, 0, by decide, 1⟩

theorem leastUsage_printable : leastUsage.Printable := by
  constructor
  · rw [PyNumber.nearest_eq]
    decide +kernel
  · decide +kernel

theorem printing_stdout (stdout : List Byte) :
    (printing stdout).stdout = Utf8.decodeReplace stdout := by
  simp [ExecSession.stdout, ExecSession.chunks, printing]

theorem printing_ends (stdout : List Byte) : leastUsage.Ends (printing stdout).stderr := by
  have hstderr : (printing stdout).stderr =
      Utf8.decodeReplace (Utf8.encode "0.00 1\n".toList) := by
    simp [ExecSession.stderr, ExecSession.chunks, printing]
  apply Usage.ends_alone
  rw [hstderr]
  decide +kernel

theorem behaves_printing (stdout : List Byte) : Behaves (printing stdout) where
  exit_code := rfl
  usage := ⟨leastUsage, printing_ends stdout, Nat.one_pos⟩

section

variable {env : Environment} {limits : Limits} {t : TestCase × Nat}

/-- Below no limit there is room for a program. -/
theorem Accepts.memory_limit_pos (h : Accepts env limits t)
    (hbehaves : Behaves (env.execution t.2)) : 0 < limits.memory_limit_kb := by
  obtain ⟨u, hends, hpos⟩ := hbehaves.usage
  obtain ⟨expected_output, m, -, hm, hverdict⟩ := runsOk_iff.mp h.runs
  obtain ⟨-, rfl⟩ := hends.measurements_eq_ok.mp hm
  by_contra hlimit
  have hmin : min (u.memory_kb : Int) limits.memory_limit_kb = limits.memory_limit_kb := by omega
  simp [verdictOf, hmin] at hverdict

theorem Accepts.output (h : Accepts env limits t) : env.Decodes t.1.output_key := by
  obtain ⟨expected_output, m, hexpected, -, -⟩ := runsOk_iff.mp h.runs
  exact ⟨expected_output, hexpected⟩

/-- A program that prints the expected output is accepted. -/
theorem accepts_printing (hlimit : 1 < limits.memory_limit_kb)
    (hinput : env.Decodes t.1.input_key) (houtput : env.Decodes t.1.output_key)
    (hsession : env.execution t.2 = printing (env.testcaseFile t.1.output_key)) :
    Accepts env limits t := by
  obtain ⟨expected_output, hexpected⟩ := houtput
  have hdecode := decoded_eq_ok_iff.mp hexpected
  have hm : measurements (printing (env.testcaseFile t.1.output_key)).stderr
      limits.time_limit_sec limits.memory_limit_kb =
        .ok (min ⌊PyNumber.rounded leastUsage.elapsed⌋ (limits.time_limit_sec * 1000),
          min (leastUsage.memory_kb : Int) limits.memory_limit_kb) :=
    (printing_ends _).measurements_eq_ok.mpr ⟨leastUsage_printable, rfl⟩
  have hmin : min (leastUsage.memory_kb : Int) limits.memory_limit_kb ≠
      limits.memory_limit_kb := by
    simp only [leastUsage]
    omega
  rw [← hsession] at hm
  refine ⟨hinput, runsOk_iff.mpr ⟨expected_output, _, hexpected, hm, ?_⟩⟩
  rw [hsession, printing_stdout, Utf8.decodeReplace_of_decode hdecode]
  simp [verdictOf, hmin, printing]

variable {cfg : Config} {db : Database} {submission_id : Int} {submission : Submission}
  {problem : Problem}

def Environment.running (env : Environment) (execution : Nat → ExecSession) : Environment :=
  { env with execution := execution }

def Solvable (cfg : Config) (env : Environment) (db : Database) (submission_id : Int) : Prop :=
  ∃ execution : Nat → ExecSession, (∀ idx, Behaves (execution idx)) ∧
    Accepted cfg (env.running execution) db submission_id

theorem Environment.Calm.running {language : Language} (h : env.Calm language)
    (execution : Nat → ExecSession) : (env.running execution).Calm language where
  raises := h.raises
  sandbox := h.sandbox
  compiles := by
    have hcompiles := h.compiles
    cases language with
    | _ => exact hcompiles

def expectedRuns (env : Environment) (testcases : List TestCase) (idx : Nat) : ExecSession :=
  printing ((testcases[idx - 1]?.map fun tc => env.testcaseFile tc.output_key).getD [])

/-- **A problem can be solved** exactly if its memory limit is positive and its files are
text. -/
theorem solvable_iff (hcalm : env.Calm submission.language)
    (hs : db.submissions submission_id = some submission)
    (hp : db.problems submission.problem_id = some problem) :
    Solvable cfg env db submission_id ↔
      ∀ tc ∈ db.testcasesOf submission.problem_id, 0 < problem.memory_limit_mb ∧
        env.Decodes tc.input_key ∧ env.Decodes tc.output_key := by
  constructor
  · rintro ⟨execution, hbehaves, haccepted⟩ tc htc
    have haccepts := (accepted_iff (hcalm.running execution) hs hp).mp haccepted
    obtain ⟨k, hk, rfl⟩ := List.mem_iff_getElem.mp htc
    have ht := haccepts ((db.testcasesOf submission.problem_id)[k], k + 1) (by
      rw [List.mk_mem_zipIdx_iff_le_and_getElem?_sub]
      simp [hk])
    have hlimit := ht.memory_limit_pos (hbehaves _)
    simp only [Problem.limits] at hlimit
    exact ⟨by omega, ht.input, ht.output⟩
  · intro h
    let execution := expectedRuns env (db.testcasesOf submission.problem_id)
    refine ⟨execution, fun idx => behaves_printing _, ?_⟩
    refine (accepted_iff (hcalm.running execution) hs hp).mpr fun t ht => ?_
    obtain ⟨hpos, hinput, houtput⟩ := h t.1 (List.fst_mem_of_mem_zipIdx ht)
    have hget := (List.mk_mem_zipIdx_iff_le_and_getElem?_sub.mp ht).2
    refine accepts_printing ?_ hinput houtput ?_
    · simp only [Problem.limits]
      omega
    · show expectedRuns env _ t.2 = _
      rw [expectedRuns, hget]
      rfl

end

end ByteBattles.Judge.JudgeWorker
