import ByteBattles.Judge.JudgeWorker.Pipeline

/-!
# The calls that the pipeline makes

Which calls each part of `process_submission` can make, for any property of calls.
-/

namespace ByteBattles.Judge.JudgeWorker

open ByteBattles.Lib

def Step.inLoop : Step → Bool
  | .readTestcaseInput _ | .readTestcaseOutput _ | .execCreate _ | .execStart _ | .sendall _
  | .framesIter _ | .closeSocket _ | .execInspect _ => true
  | _ => false

section

variable {α : Type} {cfg : Config} {env : Environment} {p : Call → Prop}

theorem makes_call {c : Call} (h : p c) : (env.call c).Makes p := Traced.makes_call h

theorem makes_rollbackAndRaise {db : Session} {e : Exc} (h : p (.rollback db)) :
    (rollbackAndRaise env db e : Run α).Makes p := by
  unfold rollbackAndRaise
  split
  · exact (makes_call h).bind fun _ _ => Traced.makes_raise _
  · exact Traced.makes_raise _

theorem makes_session {db : Session} {body : Run α}
    {update : α → Option (Int × SubmissionResult)} (hbody : body.Makes p)
    (hcommit : ∀ a, body.result = .ok a → p (.commit db (update a)))
    (hrollback : p (.rollback db)) (hclose : p (.close db)) :
    (session env db body update).Makes p := by
  refine Traced.Makes.ensuring (Traced.Makes.catching (hbody.bind fun a ha => ?_)
    fun _ => makes_rollbackAndRaise hrollback) (makes_call hclose)
  exact (makes_call (hcommit a ha)).bind fun _ _ => Traced.makes_pure _

theorem makes_getContainer {container_id : Str} {body : Run α}
    (hget : p (.getContainer container_id)) (hbody : body.Makes p)
    (hstop : p (.stopContainer container_id)) :
    (getContainer env container_id body).Makes p := by
  refine Traced.Makes.bind (Traced.Makes.catching (makes_call hget) fun e => ?_) fun _ _ =>
    hbody.ensuring (makes_call hstop)
  unfold lookupFailed
  split <;> exact Traced.makes_raise _

theorem makes_readJob {db : Database} {submission_id : Int}
    (h : ∀ table, p (.query .submission table)) : (readJob env db submission_id).Makes p := by
  refine Traced.Makes.bind ((makes_call (h _)).bind fun _ _ => ?_) fun _ _ =>
    Traced.Makes.bind ((makes_call (h _)).bind fun _ _ => Traced.makes_pure _) fun _ _ =>
    Traced.Makes.bind ((makes_call (h _)).bind fun _ _ => ?_) fun _ _ => Traced.makes_pure _
  all_goals
    split
    · exact Traced.makes_pure _
    · exact Traced.makes_raise _

theorem makes_compileWith {container line : Str}
    (h : ∀ cmd, p (.execRun container cmd cfg.WORKSPACE_DIR)) :
    (compileWith cfg env container line).Makes p :=
  (makes_call (h _)).bind fun _ _ => Traced.makes_ofExcept _

theorem makes_compile {container : Str} {language : Language} {result : SubmissionResult}
    (h : ∀ cmd, p (.execRun container cmd cfg.WORKSPACE_DIR)) :
    (compile cfg env container language result).Makes p := by
  cases language with
  | PYTHON => exact Traced.makes_pure _
  | _ => exact (makes_compileWith h).bind fun _ _ => Traced.makes_pure _

theorem makes_runProgram {idx : Nat} {container : Str} {language : Language}
    {path input_data expected_output : Str} {time_limit_sec memory_limit_kb : Int}
    (h : ∀ c, c.step.inLoop = true → p c) :
    (runProgram env idx container language path input_data expected_output time_limit_sec
      memory_limit_kb).Makes p := by
  unfold runProgram
  iterate 6 refine (makes_call (h _ rfl)).bind fun _ _ => ?_
  exact Traced.makes_ofExcept _

theorem makes_runTestcase {sandbox : Sandbox} {idx : Nat} {testcase : TestCase}
    (h : ∀ c, c.step.inLoop = true → p c) : (runTestcase env sandbox idx testcase).Makes p := by
  refine (makes_call (h _ rfl)).bind fun _ _ => (Traced.makes_ofExcept _).bind fun _ _ => ?_
  refine (makes_call (h _ rfl)).bind fun _ _ => (Traced.makes_ofExcept _).bind fun _ _ => ?_
  exact makes_runProgram h

theorem makes_judgeTestcases {sandbox : Sandbox} {idx : Nat}
    {max_runtime_ms max_memory_used_kb : Int} {testcases : List TestCase}
    (h : ∀ c, c.step.inLoop = true → p c) :
    (judgeTestcases env sandbox idx max_runtime_ms max_memory_used_kb testcases).Makes p := by
  induction testcases generalizing idx max_runtime_ms max_memory_used_kb with
  | nil => exact Traced.makes_pure _
  | cons testcase testcases ih =>
      apply (makes_runTestcase h).bind
      intro r _
      dsimp only
      split
      · exact ih
      · exact Traced.makes_pure _

end

end ByteBattles.Judge.JudgeWorker
