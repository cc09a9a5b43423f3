import ByteBattles.Judge.JudgeWorker.Usage
import ByteBattles.Lib.Utf8Canonical

/-!
# The verdict of a run

`run_program` sees a run through the exit status that `timeout` reports and through the
memory, cut off at the limit.  Both fold endings into one another.
-/

namespace ByteBattles.Judge.JudgeWorker

open ByteBattles.Lib

inductive Ending
  | timeLimit
  | exit (code : Fin 256)
  | signal (s : Nat)
deriving DecidableEq

namespace Ending

/-- What `timeout -s KILL` reports. -/
def status : Ending → Int
  | timeLimit => 137
  | exit code => code.val
  | signal s => 128 + s

/-- What the verdict of a run within its memory limit should tell. -/
def outcome (stdout_output expected_output : Str) : Ending → Verdict
  | timeLimit => .TIME_LIMIT_EXCEEDED
  | signal _ => .RUNTIME_ERROR
  | exit code =>
      if code = 0 then
        if norm stdout_output = norm expected_output then .ACCEPTED else .WRONG_ANSWER
      else .RUNTIME_ERROR

def told (ending : Ending) (memory_kb memory_limit_kb : Int)
    (stdout_output expected_output : Str) : Verdict :=
  if memory_limit_kb < memory_kb then .MEMORY_LIMIT_EXCEEDED
  else ending.outcome stdout_output expected_output

/-- The endings that are reported as if the program had been killed at the time limit. -/
def misleading : List Ending := [exit 124, exit 137, signal 9]

theorem status_killed_iff (ending : Ending) :
    (ending.status = 124 ∨ ending.status = 137) ↔ ending = timeLimit ∨ ending ∈ misleading := by
  cases ending with
  | timeLimit => simp [status]
  | exit code =>
      simp only [status, misleading, List.mem_cons, exit.injEq, Fin.ext_iff]
      simp
      omega
  | signal s =>
      simp only [status, misleading, List.mem_cons, signal.injEq]
      simp
      omega

theorem status_eq_zero_iff (ending : Ending) : ending.status = 0 ↔ ending = exit 0 := by
  cases ending with
  | timeLimit => simp [status]
  | exit code =>
      simp only [status, exit.injEq, Fin.ext_iff]
      simp
  | signal s =>
      simp only [status, reduceCtorEq, iff_false]
      omega

section

variable {ending : Ending} {stdout_output expected_output : Str}

theorem outcome_eq_runtime_error (hlimit : ending ≠ timeLimit) (hexit : ending ≠ exit 0) :
    ending.outcome stdout_output expected_output = .RUNTIME_ERROR := by
  cases ending with
  | timeLimit => exact absurd rfl hlimit
  | signal s => rfl
  | exit code => exact if_neg fun hcode => hexit (congrArg exit hcode)

theorem outcome_exit_mem (code : Fin 256) :
    (exit code).outcome stdout_output expected_output ∈
      [Verdict.RUNTIME_ERROR, .ACCEPTED, .WRONG_ANSWER] := by
  by_cases hcode : code = 0
  · by_cases hsame : norm stdout_output = norm expected_output <;> simp [outcome, hcode, hsame]
  · simp [outcome, hcode]

theorem outcome_eq_time_limit_iff :
    ending.outcome stdout_output expected_output = .TIME_LIMIT_EXCEEDED ↔
      ending = timeLimit := by
  cases ending with
  | timeLimit => simp [outcome]
  | signal s => simp [outcome]
  | exit code =>
      simp only [reduceCtorEq, iff_false]
      intro h
      exact absurd (h ▸ outcome_exit_mem code) (by decide)

theorem outcome_ne_memory_limit :
    ending.outcome stdout_output expected_output ≠ .MEMORY_LIMIT_EXCEEDED := by
  intro h
  cases ending with
  | timeLimit => cases h
  | signal s => cases h
  | exit code => exact absurd (h ▸ outcome_exit_mem code) (by decide)

variable {memory_kb memory_limit_kb : Int}

/-- Within the memory limit, the status tells the other endings. -/
theorem verdictOf_status_iff (h : memory_kb ≠ memory_limit_kb) :
    verdictOf memory_kb memory_limit_kb (some ending.status) stdout_output expected_output =
        ending.outcome stdout_output expected_output ↔
      ending ∉ misleading := by
  unfold verdictOf
  simp only [if_neg h, Option.some.injEq, ne_eq, status_killed_iff, status_eq_zero_iff]
  split_ifs with hkilled hexit hsame
  · rw [eq_comm, outcome_eq_time_limit_iff]
    constructor
    · rintro rfl
      decide
    · exact hkilled.resolve_right
  · simp [hexit, outcome, hsame, misleading]
  · simp [hexit, outcome, hsame, misleading]
  · rw [outcome_eq_runtime_error (fun h => hkilled (.inl h)) hexit]
    simp only [true_iff]
    exact fun h => hkilled (.inr h)

/-- A run has the verdict that it should have, unless its memory is at the limit or its
ending is misleading. -/
theorem verdictOf_eq_told_iff :
    verdictOf (min memory_kb memory_limit_kb) memory_limit_kb (some ending.status) stdout_output
        expected_output = ending.told memory_kb memory_limit_kb stdout_output expected_output ↔
      memory_limit_kb < memory_kb ∨ (memory_kb < memory_limit_kb ∧ ending ∉ misleading) := by
  unfold told
  rcases lt_trichotomy memory_kb memory_limit_kb with hlt | rfl | hgt
  · rw [min_eq_left hlt.le, if_neg hlt.asymm, verdictOf_status_iff hlt.ne]
    simp [hlt, hlt.asymm]
  · have hmemory : verdictOf (min memory_kb memory_kb) memory_kb (some ending.status)
        stdout_output expected_output = .MEMORY_LIMIT_EXCEEDED := by simp [verdictOf]
    rw [hmemory, if_neg (lt_irrefl _), eq_comm]
    simp [outcome_ne_memory_limit]
  · rw [min_eq_right hgt.le, if_pos hgt]
    simp [verdictOf, hgt]

end

end Ending

/-! ## Runs -/

section

variable {env : Environment} {idx : Nat} {u : Usage} {ending : Ending}

/-- **The verdict tells what happened** exactly if the memory is over its limit, or below it
and the ending is not misleading. -/
theorem verdict_tells_iff (h : DockerSucceeds env idx)
    (hends : u.Ends (env.execution idx).stderr)
    (hstatus : (env.execution idx).exit_code = some ending.status) (container : Str)
    (language : Language) (executable_path input_data expected_output : Str)
    (time_limit_sec memory_limit_kb : Int) :
    (∃ r, (runProgram env idx container language executable_path input_data expected_output
        time_limit_sec memory_limit_kb).result = .ok r ∧
        r.verdict = ending.told u.memory_kb memory_limit_kb (env.execution idx).stdout
          expected_output) ↔
      u.Printable ∧ (memory_limit_kb < u.memory_kb ∨
        (u.memory_kb < memory_limit_kb ∧ ending ∉ [.exit 124, .exit 137, .signal 9])) := by
  change _ ↔ u.Printable ∧ (_ ∨ _ ∧ ending ∉ Ending.misleading)
  rw [← @Ending.verdictOf_eq_told_iff ending (env.execution idx).stdout expected_output]
  simp only [result_runProgram h, runResult_eq_ok_iff, hends.measurements_eq_ok, hstatus]
  constructor
  · rintro ⟨r, ⟨m, ⟨hprintable, rfl⟩, rfl⟩, hverdict⟩
    exact ⟨hprintable, hverdict⟩
  · rintro ⟨hprintable, hverdict⟩
    exact ⟨_, ⟨_, ⟨hprintable, rfl⟩, rfl⟩, hverdict⟩

/-- What `time` prints before its format when the status is not zero. -/
def complaint (status : Nat) : Str :=
  "Command exited with non-zero status ".toList ++ Nat.toDigits 10 status ++ ['\n']

def silent (status : Nat) : ExecSession :=
  ⟨[(2, Utf8.encode (complaint status)), (2, Utf8.encode "0.00 9000\n".toList)], some status⟩

/-- The second line is its usage. -/
theorem silent_ends (status : Nat) :
    (Usage.mk 0 0 (by decide) 9000).Ends (silent status).stderr := by
  have hstderr : (silent status).stderr = complaint status ++ "0.00 9000\n".toList := by
    simp [ExecSession.stderr, ExecSession.chunks, silent, ← Utf8.encode_append]
  have hline : (Usage.mk 0 0 (by decide) 9000).line ++ ['\n'] = "0.00 9000\n".toList := by
    decide +kernel
  have hlast : (complaint status).getLast? = some '\n' := List.getLast?_concat
  refine ⟨complaint status, fun c hc => ?_, by rw [hstderr, hline]⟩
  rw [hlast] at hc
  exact (Option.some.inj hc).symm

/-- A program that exits with 137 on its own. -/
theorem not_verdict_tells :
    ¬ ∀ env idx (u : Usage) (ending : Ending), DockerSucceeds env idx →
      u.Ends (env.execution idx).stderr →
      (env.execution idx).exit_code = some ending.status →
      ∀ container language executable_path input_data expected_output time_limit_sec
        memory_limit_kb, 0 < time_limit_sec → 0 < memory_limit_kb →
        ∃ r, (runProgram env idx container language executable_path input_data expected_output
          time_limit_sec memory_limit_kb).result = .ok r ∧
        r.verdict = ending.told u.memory_kb memory_limit_kb (env.execution idx).stdout
          expected_output := by
  intro hall
  obtain ⟨r, hr, hverdict⟩ := hall (leaving (silent 137)) 1 ⟨0, 0, by decide, 9000⟩
    (.exit 137) (dockerSucceeds_leaving _ _) (silent_ends 137) rfl [] .PYTHON [] [] [] 1 262144 (by decide)
    (by decide)
  rw [result_runProgram (dockerSucceeds_leaving _ _), runResult_eq_ok_iff] at hr
  obtain ⟨m, hm, rfl⟩ := hr
  have hread : measurements (silent 137).stderr 1 262144 = .ok (0, 9000) := by decide +kernel
  obtain rfl := Except.ok.inj (hm.symm.trans hread)
  exact absurd hverdict (by decide +kernel)

theorem verdict_tells_exit_one :
    ∃ r, (runProgram (leaving (silent 1)) 1 ['b'] .PYTHON "/workspace/main.py".toList [] [] 1
        262144).result = .ok r ∧
      r.verdict = (Ending.exit 1).told (9000 : Nat) 262144 (silent 1).stdout [] := by
  apply (verdict_tells_iff (dockerSucceeds_leaving (silent 1) 1) (silent_ends 1) rfl ['b'] .PYTHON
    "/workspace/main.py".toList [] [] 1 262144).mpr
  exact ⟨printable_zero, .inr ⟨by decide, by decide⟩⟩

end

end ByteBattles.Judge.JudgeWorker
