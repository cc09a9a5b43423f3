import ByteBattles.Judge.JudgeWorker.ResultWrite
import ByteBattles.Lib.StdioProgram
import ByteBattles.Lib.Traced
import Mathlib.Algebra.Order.Ring.Unbundled.Rat

/-!
# What a judge worker calls

The calls of one iteration of the worker to Redis, the database, the object storage
and Docker, the exceptions, and the environment that answers the calls.  Every step
is made at most once in an iteration; those for a testcase carry its index.
-/

namespace ByteBattles.Judge.JudgeWorker

open ByteBattles.Lib

/-! ## Configuration and rows -/

structure Config where
  ACQUIRE_TIMEOUT_SECONDS : Int
  WORKSPACE_DIR : Str

structure Submission where
  problem_id : Str
  language : Language
  code_object_key : Str
  result : Row

structure Problem where
  time_limit_sec : Int
  memory_limit_mb : Int

structure TestCase where
  id : Int
  problem_id : Str
  input_key : Str
  output_key : Str

structure Database where
  submissions : Int → Option Submission
  problems : Str → Option Problem
  testcases : List TestCase

/-! ## Exceptions -/

inductive Exc
  /-- A `ValueError` of the pipeline, or of a library it calls. -/
  | valueError (message : String)
  /-- A `ValueError` of `int` or `float`. -/
  | conversionError
  | unicodeDecodeError
  | indexError
  | overflowError
  | typeError
  | timeoutError (message : String)
  | runtimeError (message : String)
  | unboundLocalError
  /-- Any other `Exception` of a library. -/
  | other
  | keyboardInterrupt
  deriving DecidableEq, Repr

/-- `isinstance(e, ValueError)`. -/
def Exc.isValueError : Exc → Bool
  | .valueError _ | .conversionError | .unicodeDecodeError => true
  | _ => false

/-- `isinstance(e, Exception)`. -/
def Exc.isException : Exc → Bool
  | .keyboardInterrupt => false
  | _ => true

/-! ## Calls -/

inductive Session
  | submission
  | result
  deriving DecidableEq, Repr

inductive Table
  | submissions
  | testcases
  | problems
  deriving DecidableEq, Repr

inductive Step
  | setHeartbeat
  | brpop
  | setSubmission
  | deleteSubmission
  | lpush
  | sleep
  | query (db : Session) (table : Table)
  | commit (db : Session)
  | rollback (db : Session)
  | close (db : Session)
  | acquireWarmSandbox
  | publishEvent
  | getContainer
  | stopContainer
  | readSubmissionCode
  | putArchive
  | execRun
  | readTestcaseInput (idx : Nat)
  | readTestcaseOutput (idx : Nat)
  | execCreate (idx : Nat)
  | execStart (idx : Nat)
  | sendall (idx : Nat)
  | framesIter (idx : Nat)
  | closeSocket (idx : Nat)
  | execInspect (idx : Nat)
  deriving DecidableEq, Repr

inductive Call
  | setHeartbeat
  | brpop
  | setSubmission (submission_id : Int)
  | deleteSubmission (submission_id : Int)
  | lpush (submission_id : Int)
  | sleep
  | query (db : Session) (table : Table)
  /-- The assigned result, if the row was found, is written with the commit. -/
  | commit (db : Session) (update : Option (Int × SubmissionResult))
  | rollback (db : Session)
  | close (db : Session)
  | acquireWarmSandbox (language : Language) (timeout : Int)
  | publishEvent (submission_id : Int) (language : Language)
  | getContainer (container_id : Str)
  | stopContainer (container_id : Str)
  | readSubmissionCode (object_key : Str)
  | putArchive (container_id path : Str) (archive : List (Str × List Byte))
  | execRun (container_id : Str) (cmd : List Str) (workdir : Str)
  | readTestcaseInput (idx : Nat) (object_key : Str)
  | readTestcaseOutput (idx : Nat) (object_key : Str)
  | execCreate (idx : Nat) (container_id : Str) (cmd : List Str)
  | execStart (idx : Nat)
  | sendall (idx : Nat) (data : List Byte)
  | framesIter (idx : Nat)
  | closeSocket (idx : Nat)
  | execInspect (idx : Nat)
  deriving DecidableEq, Repr

def Call.step : Call → Step
  | .setHeartbeat => .setHeartbeat
  | .brpop => .brpop
  | .setSubmission _ => .setSubmission
  | .deleteSubmission _ => .deleteSubmission
  | .lpush _ => .lpush
  | .sleep => .sleep
  | .query db table => .query db table
  | .commit db _ => .commit db
  | .rollback db => .rollback db
  | .close db => .close db
  | .acquireWarmSandbox _ _ => .acquireWarmSandbox
  | .publishEvent _ _ => .publishEvent
  | .getContainer _ => .getContainer
  | .stopContainer _ => .stopContainer
  | .readSubmissionCode _ => .readSubmissionCode
  | .putArchive _ _ _ => .putArchive
  | .execRun _ _ _ => .execRun
  | .readTestcaseInput idx _ => .readTestcaseInput idx
  | .readTestcaseOutput idx _ => .readTestcaseOutput idx
  | .execCreate idx _ _ => .execCreate idx
  | .execStart idx => .execStart idx
  | .sendall idx _ => .sendall idx
  | .framesIter idx => .framesIter idx
  | .closeSocket idx => .closeSocket idx
  | .execInspect idx => .execInspect idx

/-- The result of `container.exec_run(..., demux=True)`; the output is missing if it is not a
tuple. -/
structure ExecResult where
  exit_code : Option Int
  output : Option (Option (List Byte) × Option (List Byte))

/-- What the socket of an exec session yields, and the exit code that `exec_inspect` reports. -/
structure ExecSession where
  frames : List (Nat × List Byte)
  exit_code : Option Int

theorem elapsed_zero (_ : Step) : (0 : ℚ) ≤ 0 := Rat.le_refl

/-- What an iteration meets: the exceptions of its calls, the time that each takes, and the
answers. -/
structure Environment where
  raises : Step → Option Exc
  elapsed : Step → ℚ
  elapsed_nonneg : ∀ c, 0 ≤ elapsed c
  /-- What `brpop` on the warm queue returns. -/
  sandbox : Option Str
  /-- The objects of the two buckets.  Reading a missing one raises. -/
  submissionFile : Str → List Byte
  testcaseFile : Str → List Byte
  compilation : ExecResult
  execution : Nat → ExecSession

abbrev Run (α : Type) := Traced Call Exc α

def Environment.call (env : Environment) (c : Call) : Run Unit :=
  Traced.call (env.raises c.step) c

@[simp] theorem Environment.calls_call (env : Environment) (c : Call) :
    (env.call c).calls = [c] := rfl

@[simp] theorem Environment.raised_call (env : Environment) (c : Call) :
    (env.call c).raised = env.raises c.step := Traced.raised_call _ _

@[simp] theorem Environment.raised_call_bind {α : Type} (env : Environment) (c : Call)
    (f : Unit → Run α) : (env.call c >>= f).raised = (env.raises c.step).or (f ()).raised :=
  Traced.raised_call_bind _ _ _

theorem Environment.call_bind {α : Type} {env : Environment} {c : Call} {f : Unit → Run α}
    (h : env.raises c.step = none) :
    (env.call c >>= f) = ⟨c :: (f ()).calls, (f ()).result⟩ := by
  rw [Environment.call, h]
  exact Traced.call_none_bind c f

theorem Environment.result_call {env : Environment} {c : Call} (h : env.raises c.step = none) :
    (env.call c).result = .ok () := by
  rw [Environment.call, h]
  rfl

theorem Environment.result_call_raises {env : Environment} {c : Call} {e : Exc}
    (h : env.raises c.step = some e) : (env.call c).result = .error e := by
  rw [Environment.call, h]
  rfl

theorem Environment.call_bind_raises {α : Type} {env : Environment} {c : Call}
    {f : Unit → Run α} {e : Exc} (h : env.raises c.step = some e) :
    (env.call c >>= f) = ⟨[c], .error e⟩ := by
  rw [Traced.bind_error (Environment.result_call_raises h)]
  rfl

end ByteBattles.Judge.JudgeWorker
