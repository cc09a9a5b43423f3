import ByteBattles.Judge.JudgeWorker.FirstFailure
import ByteBattles.Lib.Utf8Canonical

/-!
# What goes into the container

The code that is copied and the bytes that are written to standard input are those of
objects that were read: an input is decoded and encoded again, and UTF-8 is canonical.
-/

namespace ByteBattles.Judge.JudgeWorker

open ByteBattles.Lib

/-- The call brings something into a container, or starts a program in it. -/
def Call.feeds : Call → Bool
  | .putArchive _ _ _ | .execCreate _ _ _ | .sendall _ _ => true
  | _ => false

/-- The testcase with the number of a call, in a loop that counts from `first`. -/
def numberedFrom (first : Nat) (testcases : List TestCase) (idx : Nat) : Option TestCase :=
  if first ≤ idx then testcases[idx - first]? else none

/-- What a call of the loop that counts from `first` brings in. -/
def Call.SuppliedFrom (env : Environment) (sandbox : Sandbox) (first : Nat)
    (testcases : List TestCase) : Call → Prop
  | .execCreate idx container_id cmd =>
      (numberedFrom first testcases idx).isSome = true ∧ container_id = sandbox.container ∧
        cmd = shell (timeLine sandbox.language sandbox.executable_path
          sandbox.limits.time_limit_sec)
  | .sendall idx data => ∃ testcase, numberedFrom first testcases idx = some testcase ∧
      env.raises (.readTestcaseInput idx) = none ∧ data = env.testcaseFile testcase.input_key
  | .putArchive _ _ _ => False
  | _ => True

/-- What a call brings in for the job: the code of the submission under the name for its
language, and as the input of the testcase with its number the object of that testcase. -/
def Call.Supplied (cfg : Config) (env : Environment) (job : Job) (container : Str) : Call → Prop
  | .putArchive container_id path archive =>
      container_id = container ∧ path = cfg.WORKSPACE_DIR ∧
        env.raises .readSubmissionCode = none ∧
        archive = [((FILENAME job.submission.language).toList,
          env.submissionFile job.submission.code_object_key)]
  | c => c.SuppliedFrom env ⟨container, job.submission.language,
      executablePath cfg job.submission.language, job.limits⟩ 1 job.testcases

section

variable {cfg : Config} {env : Environment} {sandbox : Sandbox} {first idx : Nat}
  {testcase : TestCase} {testcases : List TestCase}

theorem numberedFrom_cons_self :
    numberedFrom first (testcase :: testcases) first = some testcase := by
  simp [numberedFrom]

theorem numberedFrom_cons {tc : TestCase}
    (h : numberedFrom (first + 1) testcases idx = some tc) :
    numberedFrom first (testcase :: testcases) idx = some tc := by
  unfold numberedFrom at h ⊢
  split at h
  case isTrue hle =>
    have hindex : idx - first = idx - (first + 1) + 1 := by omega
    rw [if_pos (by omega), hindex]
    exact h
  case isFalse => cases h

theorem Call.SuppliedFrom.cons {c : Call} (h : c.SuppliedFrom env sandbox (first + 1) testcases) :
    c.SuppliedFrom env sandbox first (testcase :: testcases) := by
  cases c with
  | execCreate idx container_id cmd =>
      obtain ⟨hnumber, hrest⟩ := h
      obtain ⟨tc, htc⟩ := Option.isSome_iff_exists.mp hnumber
      exact ⟨Option.isSome_iff_exists.mpr ⟨tc, numberedFrom_cons htc⟩, hrest⟩
  | sendall idx data =>
      obtain ⟨tc, htc, hread⟩ := h
      exact ⟨tc, numberedFrom_cons htc, hread⟩
  | putArchive container_id path archive => exact h
  | _ => trivial

/-- The bytes of the first testcase go in: its input is decoded and encoded again. -/
theorem runTestcase_supplied :
    (runTestcase env sandbox first testcase).Makes
      (Call.SuppliedFrom env sandbox first (testcase :: testcases)) := by
  refine (makes_call trivial).bind fun _ hread => ?_
  refine (Traced.makes_ofExcept _).bind fun input_data hinput => ?_
  refine (makes_call trivial).bind fun _ _ => (Traced.makes_ofExcept _).bind fun _ _ => ?_
  have hraises : env.raises (.readTestcaseInput first) = none := by
    have hraised := Traced.raised_of_ok hread
    rwa [Environment.raised_call] at hraised
  have hbytes : Utf8.encode input_data = env.testcaseFile testcase.input_key :=
    Utf8.encode_of_decode (decoded_eq_ok_iff.mp hinput)
  have hfirst : numberedFrom first (testcase :: testcases) first = some testcase :=
    numberedFrom_cons_self
  unfold runProgram
  refine (makes_call ⟨by rw [hfirst]; rfl, rfl, rfl⟩).bind fun _ _ => ?_
  refine (makes_call trivial).bind fun _ _ => ?_
  refine (makes_call ⟨testcase, hfirst, hraises, hbytes⟩).bind fun _ _ => ?_
  iterate 3 refine (makes_call trivial).bind fun _ _ => ?_
  exact Traced.makes_ofExcept _

theorem judgeTestcases_supplied (max_runtime_ms max_memory_used_kb : Int) :
    (judgeTestcases env sandbox first max_runtime_ms max_memory_used_kb testcases).Makes
      (Call.SuppliedFrom env sandbox first testcases) := by
  induction testcases generalizing first max_runtime_ms max_memory_used_kb with
  | nil => exact Traced.makes_pure _
  | cons testcase testcases ih =>
      apply runTestcase_supplied.bind
      intro r _
      dsimp only
      split
      · intro c hc
        exact Call.SuppliedFrom.cons (ih _ _ c hc)
      · exact Traced.makes_pure _

theorem judge_supplied (submission_id : Int) (job : Job) (container : Str) :
    (judge cfg env submission_id job container).Makes (Call.Supplied cfg env job container) := by
  unfold judge copyCodeToContainer
  refine (makes_call trivial).bind fun _ hread => ?_
  have hraises : env.raises .readSubmissionCode = none := by
    have hraised := Traced.raised_of_ok hread
    rwa [Environment.raised_call] at hraised
  refine (makes_call ⟨rfl, rfl, hraises, rfl⟩).bind fun _ _ => ?_
  refine (makes_compile fun _ => trivial).bind fun result _ => ?_
  split
  case isTrue =>
    refine Traced.Makes.bind ?_ fun _ _ => Traced.makes_ofExcept _
    intro c hc
    have hloop := judgeTestcases_supplied 0 0 c hc
    cases c with
    | putArchive container_id path archive => exact hloop.elim
    | _ => exact hloop
  case isFalse => exact Traced.makes_pure _

/-- What an iteration brings into a container is supplied. -/
theorem processSubmission_supplied (db : Database) (submission_id : Int) :
    (processSubmission cfg env db submission_id).Makes fun c => c.feeds = true →
      ∃ submission problem container, db.submissions submission_id = some submission ∧
        db.problems submission.problem_id = some problem ∧ env.sandbox = some container ∧
          c.Supplied cfg env (db.job submission problem) container := by
  have hidle {c : Call} (hc : c.feeds = false) {P : Prop} : c.feeds = true → P := by simp [hc]
  unfold processSubmission
  refine Traced.Makes.bind ?_ fun result _ => Traced.Makes.bind ?_ fun _ _ => Traced.makes_pure _
  · unfold judgeSubmission
    refine (makes_session (makes_readJob fun _ => hidle rfl) (fun _ _ => hidle rfl) (hidle rfl)
      (hidle rfl)).bind fun job hjob => ?_
    obtain ⟨submission, problem, hs, hp, rfl⟩ := returns_session returns_readJob_iff job hjob
    refine (makes_call (hidle rfl)).bind fun _ _ => ?_
    split
    case h_1 => exact Traced.makes_raise _
    case h_2 container hsandbox =>
      refine (makes_call (hidle rfl)).bind fun _ _ => ?_
      refine makes_getContainer (hidle rfl) (fun c hc _ => ?_) (hidle rfl)
      exact ⟨submission, problem, container, hs, hp, hsandbox, judge_supplied _ _ _ c hc⟩
  · unfold updateSubmissionResult
    refine makes_session ?_ (fun _ _ => hidle rfl) (hidle rfl) (hidle rfl)
    exact (makes_call (hidle rfl)).bind fun _ _ => Traced.makes_pure _

variable (cfg env)

/-- **The container gets what storage holds**: whatever an iteration meets, code and inputs
come byte for byte from the objects that the rows of the job name, the input with a number
from the testcase with that number. -/
theorem container_supplied (db : Database) (submission_id : Int) :
    (processSubmission cfg env db submission_id).Makes fun c => c.feeds = true →
      ∃ submission problem container, db.submissions submission_id = some submission ∧
        db.problems submission.problem_id = some problem ∧ env.sandbox = some container ∧
          c.Supplied cfg env (db.job submission problem) container :=
  processSubmission_supplied db submission_id

end

end ByteBattles.Judge.JudgeWorker
