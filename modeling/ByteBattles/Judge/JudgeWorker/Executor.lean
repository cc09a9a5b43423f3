import ByteBattles.Judge.JudgeWorker.Calls
import ByteBattles.Lib.PyBytes
import ByteBattles.Lib.PyNumber

/-!
# The executor

`JudgeExecutor` of `judge/judge_worker/executor.py`: compilation, the run of one
testcase, and the reading of its exit code and of the line that `time` prints.
-/

namespace ByteBattles.Judge.JudgeWorker

open ByteBattles.Lib

/-! ## Commands -/

def mainOut : Str := "/main.out".toList

def mainPy : Str := "/main.py".toList

/-- The shell that runs a command line. -/
def shell (line : Str) : List Str := ["/bin/sh".toList, "-lc".toList, line]

def gccLine (cfg : Config) : Str :=
  "gcc -O2 -pipe -static -s -o ".toList ++ cfg.WORKSPACE_DIR ++ mainOut ++ " ".toList ++
    cfg.WORKSPACE_DIR ++ "/main.c 2>&1".toList

def gppLine (cfg : Config) : Str :=
  "g++ -O2 -std=c++17 -pipe -static -s -o ".toList ++ cfg.WORKSPACE_DIR ++ mainOut ++
    " ".toList ++ cfg.WORKSPACE_DIR ++ "/main.cpp 2>&1".toList

def innerCmd (language : Language) (executable_path : Str) : Str :=
  match language with
  | .C => executable_path
  | .CPP => executable_path
  | .PYTHON => "python3 ".toList ++ executable_path

def timeLine (language : Language) (executable_path : Str) (time_limit_sec : Int) : Str :=
  "/usr/bin/time -f '%e %M' timeout -s KILL ".toList ++ Str.ofInt time_limit_sec ++
    "s sh -c \"".toList ++ innerCmd language executable_path ++ " 2>/dev/null\"".toList

/-! ## Compilation -/

def compileResult (result : ExecResult) : Except Exc CompileResult :=
  match result.exit_code with
  | none => .error .typeError
  | some exit_code =>
      let (stdout_b, stderr_b) := result.output.getD (some [], some [])
      .ok {
        ok := exit_code == 0
        output := Utf8.decodeReplace (stdout_b.getD []) ++ Utf8.decodeReplace (stderr_b.getD [])
        exit_code := exit_code }

/-- `compile_c` and `compile_cpp` differ in their command. -/
def compileWith (cfg : Config) (env : Environment) (container : Str) (line : Str) :
    Run CompileResult := do
  env.call (.execRun container (shell line) cfg.WORKSPACE_DIR)
  Traced.ofExcept (compileResult env.compilation)

def compileC (cfg : Config) (env : Environment) (container : Str) : Run CompileResult :=
  compileWith cfg env container (gccLine cfg)

def compileCpp (cfg : Config) (env : Environment) (container : Str) : Run CompileResult :=
  compileWith cfg env container (gppLine cfg)

def copyCodeToContainer (cfg : Config) (env : Environment) (container : Str)
    (language : Language) (code : List Byte) : Run Unit :=
  env.call (.putArchive container cfg.WORKSPACE_DIR [((FILENAME language).toList, code)])

/-! ## Measurements -/

/-- `stderr_output.split("\n")[-2].split()`. -/
def stats (stderr_output : Str) : Except Exc (List Str) :=
  match (stderr_output.splitOn '\n').reverse[1]? with
  | some line => .ok (Str.words line)
  | none => .error .indexError

def stat (stats : List Str) (k : Nat) : Except Exc Str :=
  match stats[k]? with
  | some s => .ok s
  | none => .error .indexError

def intOf (s : Str) : Except Exc Int :=
  match PyNumber.int s with
  | some n => .ok n
  | none => .error .conversionError

/-- `int(float(s))`. -/
def intOfFloat (s : Str) : Except Exc Int :=
  match PyNumber.float s with
  | some (.finite x) => .ok (x.num.tdiv x.den)
  | some .inf => .error .overflowError
  | some .nan => .error .conversionError
  | none => .error .conversionError

def measurements (stderr_output : Str) (time_limit_sec memory_limit_kb : Int) :
    Except Exc (Int × Int) := do
  let stats ← stats stderr_output
  let time ← intOfFloat (← stat stats 0)
  let memory ← intOf (← stat stats 1)
  return (min time (time_limit_sec * 1000), min memory memory_limit_kb)

/-! ## The run of a testcase -/

def norm (s : Str) : Str := Str.join ['\n'] (Str.words (Str.strip s))

def verdictOf (memory_kb_used memory_limit_kb : Int) (exit_code : Option Int)
    (stdout_output expected_output : Str) : Verdict :=
  if memory_kb_used = memory_limit_kb then .MEMORY_LIMIT_EXCEEDED
  else if exit_code = some 124 ∨ exit_code = some 137 then .TIME_LIMIT_EXCEEDED
  else if exit_code ≠ some 0 then .RUNTIME_ERROR
  else if norm stdout_output = norm expected_output then .ACCEPTED
  else .WRONG_ANSWER

/-- The payloads of one stream, joined. -/
def ExecSession.chunks (session : ExecSession) (stream : Nat) : List Byte :=
  ((session.frames.filter fun frame => frame.1 = stream).map Prod.snd).flatten

def ExecSession.stdout (session : ExecSession) : Str := Utf8.decodeReplace (session.chunks 1)

def ExecSession.stderr (session : ExecSession) : Str := Utf8.decodeReplace (session.chunks 2)

/-- `run_program` after `exec_inspect`. -/
def runResult (session : ExecSession) (expected_output : Str)
    (time_limit_sec memory_limit_kb : Int) : Except Exc RunResult := do
  let (time_elapsed, memory_kb_used) ←
    measurements session.stderr time_limit_sec memory_limit_kb
  let verdict := verdictOf memory_kb_used memory_limit_kb session.exit_code session.stdout
    expected_output
  return {
    ok := verdict == .ACCEPTED
    verdict := verdict
    output := session.stdout
    exit_code := session.exit_code
    runtime_ms := time_elapsed
    memory_kb := memory_kb_used }

def runProgram (env : Environment) (idx : Nat) (container : Str) (language : Language)
    (executable_path input_data expected_output : Str) (time_limit_sec memory_limit_kb : Int) :
    Run RunResult := do
  env.call (.execCreate idx container
    (shell (timeLine language executable_path time_limit_sec)))
  env.call (.execStart idx)
  env.call (.sendall idx (Utf8.encode input_data))
  env.call (.framesIter idx)
  env.call (.closeSocket idx)
  env.call (.execInspect idx)
  Traced.ofExcept (runResult (env.execution idx) expected_output time_limit_sec memory_limit_kb)

/-! ## Facts about a run -/

theorem verdictOf_ne_pending (memory_kb_used memory_limit_kb : Int) (exit_code : Option Int)
    (stdout_output expected_output : Str) :
    verdictOf memory_kb_used memory_limit_kb exit_code stdout_output expected_output ≠
      .PENDING := by
  unfold verdictOf
  split_ifs <;> simp

/-- What a run returns is what its measurements allow. -/
theorem runResult_eq_ok {session : ExecSession} {expected_output : Str}
    {time_limit_sec memory_limit_kb : Int} {r : RunResult}
    (h : runResult session expected_output time_limit_sec memory_limit_kb = .ok r) :
    r.verdict = verdictOf r.memory_kb memory_limit_kb session.exit_code session.stdout
      expected_output ∧ r.ok = (r.verdict == .ACCEPTED) := by
  unfold runResult at h
  cases hm : measurements session.stderr time_limit_sec memory_limit_kb with
  | error e => rw [hm] at h; cases h
  | ok m =>
      rw [hm] at h
      cases h
      exact ⟨rfl, rfl⟩

/-- A run raises what the reading of its measurements raises. -/
theorem raisedBy_runResult (session : ExecSession) (expected_output : Str)
    (time_limit_sec memory_limit_kb : Int) :
    raisedBy (runResult session expected_output time_limit_sec memory_limit_kb) =
      raisedBy (measurements session.stderr time_limit_sec memory_limit_kb) := by
  unfold runResult
  cases measurements session.stderr time_limit_sec memory_limit_kb <;> rfl

end ByteBattles.Judge.JudgeWorker
