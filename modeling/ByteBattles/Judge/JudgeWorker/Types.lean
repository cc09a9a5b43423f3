import ByteBattles.Judge.Models
import ByteBattles.Lib.PyStr

/-!
# Results of the pipeline

The dataclasses of `judge/judge_worker/types.py`, with their defaults.  A Python
`int` is an `Int`.
-/

namespace ByteBattles.Judge.JudgeWorker

open ByteBattles.Lib

structure CompileResult where
  ok : Bool
  output : Str := []
  exit_code : Int := 0
  deriving DecidableEq, Repr

/-- `run_program` always sets the two measurements, and passes on the exit code that Docker
reports. -/
structure RunResult where
  ok : Bool
  verdict : Verdict
  output : Str := []
  exit_code : Option Int := some 0
  runtime_ms : Int
  memory_kb : Int
  deriving DecidableEq, Repr

structure SubmissionResult where
  submission_id : Int
  verdict : Verdict
  output : Option Str := none
  incorrect_testcase_idx : Option Int := some 0
  incorrect_testcase_key : Option Str := none
  runtime_ms : Option Int := none
  memory_kb : Option Int := none
  deriving DecidableEq, Repr

end ByteBattles.Judge.JudgeWorker
