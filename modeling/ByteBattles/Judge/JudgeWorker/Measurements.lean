import ByteBattles.Judge.JudgeWorker.Findings
import ByteBattles.Lib.Lines

/-!
# Reading the measurements of a run

`run_program` reads two numbers from the last complete line of the error stream.  What
stands there is up to `time`, and to the program, which can write to the stream or end
`time`.
-/

namespace ByteBattles.Judge.JudgeWorker

open ByteBattles.Lib

/-! ## Runs whose calls succeed -/

def runSteps (idx : Nat) : List Step :=
  [.execCreate idx, .execStart idx, .sendall idx, .framesIter idx, .closeSocket idx,
    .execInspect idx]

def DockerSucceeds (env : Environment) (idx : Nat) : Prop :=
  ∀ step ∈ runSteps idx, env.raises step = none

section

variable {env : Environment} {idx : Nat} {container : Str} {language : Language}
  {executable_path input_data expected_output : Str} {time_limit_sec memory_limit_kb : Int}

/-- The result is that of the part after the calls. -/
theorem result_runProgram (h : DockerSucceeds env idx) :
    (runProgram env idx container language executable_path input_data expected_output
      time_limit_sec memory_limit_kb).result =
      runResult (env.execution idx) expected_output time_limit_sec memory_limit_kb := by
  have hnone {c : Call} (hc : c.step ∈ runSteps idx) : env.raises c.step = none := h _ hc
  unfold runProgram
  iterate 6 rw [Environment.call_bind (hnone (by simp [Call.step, runSteps]))]
  rfl

end

/-! ## What can be read -/

def Readable (stderr_output : Str) : Prop :=
  ∃ line time memory rest x n, LastLine '\n' stderr_output line ∧
    Str.words line = time :: memory :: rest ∧ PyNumber.float time = some (.finite x) ∧
    PyNumber.int memory = some n

section

variable {stderr_output : Str} {time_limit_sec memory_limit_kb : Int}

theorem stats_eq_ok {fields : List Str} :
    stats stderr_output = .ok fields ↔
      ∃ line, LastLine '\n' stderr_output line ∧ Str.words line = fields := by
  unfold stats
  cases hline : (stderr_output.splitOn '\n').reverse[1]? with
  | none =>
      simp only [reduceCtorEq, false_iff, not_exists, not_and]
      intro line h
      rw [← getElem?_reverse_splitOn, hline] at h
      cases h
  | some line =>
      simp only [Except.ok.injEq]
      constructor
      · intro h
        exact ⟨line, getElem?_reverse_splitOn.mp hline, h⟩
      · rintro ⟨line', h, hfields⟩
        rw [← getElem?_reverse_splitOn, hline] at h
        rwa [Option.some.inj h]

theorem intOf_eq_ok {s : Str} {n : Int} : intOf s = .ok n ↔ PyNumber.int s = some n := by
  unfold intOf
  cases PyNumber.int s <;> simp

/-- `int(float(s))` needs a finite number. -/
theorem intOfFloat_eq_ok {s : Str} {n : Int} :
    intOfFloat s = .ok n ↔
      ∃ x : ℚ, PyNumber.float s = some (.finite x) ∧ x.num.tdiv x.den = n := by
  unfold intOfFloat
  cases hx : PyNumber.float s with
  | none => simp
  | some x => cases x <;> simp

theorem stat_eq_ok {fields : List Str} {k : Nat} {s : Str} :
    stat fields k = .ok s ↔ fields[k]? = some s := by
  unfold stat
  cases fields[k]? <;> simp

theorem bind_eq_ok {α β : Type} {m : Except Exc α} {f : α → Except Exc β} {b : β} :
    (m >>= f) = .ok b ↔ ∃ a, m = .ok a ∧ f a = .ok b := by
  cases m with
  | error e => simp [bind, Except.bind]
  | ok a => simp [bind, Except.bind]

/-- The measurements are read exactly from such a text. -/
theorem measurements_eq_ok {m : Int × Int} :
    measurements stderr_output time_limit_sec memory_limit_kb = .ok m ↔
      ∃ line time memory rest, LastLine '\n' stderr_output line ∧
        Str.words line = time :: memory :: rest ∧ ∃ (x : ℚ) (n : Int),
          PyNumber.float time = some (.finite x) ∧ PyNumber.int memory = some n ∧
          m = (min (x.num.tdiv x.den) (time_limit_sec * 1000), min n memory_limit_kb) := by
  simp only [measurements, bind_eq_ok, stats_eq_ok, stat_eq_ok, intOfFloat_eq_ok, intOf_eq_ok]
  constructor
  · rintro ⟨fields, ⟨line, hline, hfields⟩, time, htime, elapsed, ⟨x, hx, helapsed⟩, memory,
      hmemory, n, hn, hm⟩
    obtain ⟨rest, rfl⟩ : ∃ rest, fields = time :: memory :: rest := by
      cases fields with
      | nil => cases htime
      | cons first fields =>
          cases fields with
          | nil => cases hmemory
          | cons second rest =>
              obtain rfl := Option.some.inj htime
              obtain rfl := Option.some.inj hmemory
              exact ⟨rest, rfl⟩
    refine ⟨line, time, memory, rest, hline, hfields, x, n, hx, hn, ?_⟩
    rw [helapsed]
    exact (Except.ok.inj hm).symm
  · rintro ⟨line, time, memory, rest, hline, hwords, x, n, hx, hn, rfl⟩
    exact ⟨_, ⟨line, hline, hwords⟩, time, rfl, _, ⟨x, hx, rfl⟩, memory, rfl, n, hn, rfl⟩

theorem isOk_measurements_iff :
    (∃ m, measurements stderr_output time_limit_sec memory_limit_kb = .ok m) ↔
      Readable stderr_output := by
  simp only [measurements_eq_ok]
  constructor
  · rintro ⟨m, line, time, memory, rest, hline, hwords, x, n, hx, hn, -⟩
    exact ⟨line, time, memory, rest, x, n, hline, hwords, hx, hn⟩
  · rintro ⟨line, time, memory, rest, x, n, hline, hwords, hx, hn⟩
    exact ⟨_, line, time, memory, rest, hline, hwords, x, n, hx, hn, rfl⟩

end

/-! ## Whatever the program leaves behind -/

section

variable {session : ExecSession} {expected_output : Str} {time_limit_sec memory_limit_kb : Int}

/-- A run returns if its measurements can be read. -/
theorem runResult_eq_ok_iff {r : RunResult} :
    runResult session expected_output time_limit_sec memory_limit_kb = .ok r ↔
      ∃ m, measurements session.stderr time_limit_sec memory_limit_kb = .ok m ∧
        r = {
          ok := verdictOf m.2 memory_limit_kb session.exit_code session.stdout expected_output ==
            .ACCEPTED
          verdict := verdictOf m.2 memory_limit_kb session.exit_code session.stdout
            expected_output
          output := session.stdout
          exit_code := session.exit_code
          runtime_ms := m.1
          memory_kb := m.2 } := by
  unfold runResult
  rw [bind_eq_ok]
  constructor
  · rintro ⟨m, hm, hr⟩
    exact ⟨m, hm, (Except.ok.inj hr).symm⟩
  · rintro ⟨m, hm, rfl⟩
    exact ⟨m, hm, rfl⟩

variable {env : Environment} {idx : Nat}

/-- **A run survives** exactly those error streams from which its measurements can be read. -/
theorem run_survives_iff (h : DockerSucceeds env idx) (container : Str) (language : Language)
    (executable_path input_data expected_output : Str) (time_limit_sec memory_limit_kb : Int) :
    (∃ r, (runProgram env idx container language executable_path input_data expected_output
        time_limit_sec memory_limit_kb).result = .ok r ∧ r.verdict ∈ .ACCEPTED :: failures) ↔
      Readable (env.execution idx).stderr := by
  simp only [result_runProgram h, runResult_eq_ok_iff]
  rw [← @isOk_measurements_iff _ time_limit_sec memory_limit_kb]
  constructor
  · rintro ⟨r, ⟨m, hm, -⟩, -⟩
    exact ⟨m, hm⟩
  · rintro ⟨m, hm⟩
    exact ⟨_, ⟨m, hm, rfl⟩, verdictOf_mem _ _ _ _ _⟩

/-- Every run ends in this way. -/
def leaving (session : ExecSession) : Environment where
  raises := fun _ => none
  elapsed := fun _ => 0
  elapsed_nonneg := elapsed_zero
  sandbox := some ['b']
  submissionFile := fun _ => []
  testcaseFile := fun _ => []
  compilation := ⟨some 0, none⟩
  execution := fun _ => session

theorem dockerSucceeds_leaving (session : ExecSession) (idx : Nat) :
    DockerSucceeds (leaving session) idx := fun _ _ => rfl

/-- The program has killed the process that measures it. -/
theorem not_run_survives :
    ¬ ∀ env idx, DockerSucceeds env idx → ∀ container language executable_path input_data
      expected_output time_limit_sec memory_limit_kb,
      ∃ r, (runProgram env idx container language executable_path input_data expected_output
        time_limit_sec memory_limit_kb).result = .ok r ∧ r.verdict ∈ .ACCEPTED :: failures := by
  intro hall
  obtain ⟨r, hr, -⟩ :=
    hall _ 1 (dockerSucceeds_leaving ⟨[], some 137⟩ 1) [] .PYTHON [] [] [] 1 1024
  rw [result_runProgram (dockerSucceeds_leaving _ _)] at hr
  have hraises : runResult ⟨[], some 137⟩ [] 1 1024 = .error .indexError := by decide +kernel
  have hcontra := hraises.symm.trans hr
  cases hcontra

theorem run_survives_line :
    ∃ r, (runProgram (leaving ⟨[(2, Utf8.encode "0.02 9000\n".toList)], some 0⟩) 1 ['b'] .PYTHON
      "/workspace/main.py".toList [] [] 1 262144).result = .ok r ∧
      r.verdict ∈ .ACCEPTED :: failures := by
  apply (run_survives_iff (dockerSucceeds_leaving _ _) _ _ _ _ _ _ _).mpr
  exact (@isOk_measurements_iff _ 1 262144).mp ⟨(0, 9000), by decide +kernel⟩

end

end ByteBattles.Judge.JudgeWorker
