import ByteBattles.Judge.JudgeWorker.Measurements
import ByteBattles.Judge.JudgeWorker.OutputComparison
import ByteBattles.Lib.DecimalText

/-!
# Resource usage

`time -f '%e %M'` ends the error stream of a run with a line of seconds, with two
decimals, and kilobytes.
-/

namespace ByteBattles.Judge.JudgeWorker

open ByteBattles.Lib

open PyNumber (decimal decimalValue nearest rounded)

/-- What `time` has measured: the elapsed time, and the peak memory in kilobytes. -/
structure Usage where
  seconds : Nat
  hundredths : Nat
  hundredths_lt : hundredths < 100
  memory_kb : Nat

namespace Usage

variable (u : Usage)

/-- `-f '%e %M'`. -/
def line : Str := decimal u.seconds u.hundredths ++ ' ' :: Nat.toDigits 10 u.memory_kb

def elapsed : ℚ := decimalValue u.seconds u.hundredths

/-- The time is no more than the largest float, and the memory has no more digits than `int`
accepts. -/
def Printable : Prop := nearest u.elapsed ≠ .inf ∧ (Nat.toDigits 10 u.memory_kb).length ≤ 4300

/-- The error stream ends with the line, after nothing or after complete lines. -/
def Ends (stderr_output : Str) : Prop :=
  ∃ before, (∀ c ∈ before.getLast?, c = '\n') ∧ stderr_output = before ++ (u.line ++ ['\n'])

theorem elapsed_nonneg : 0 ≤ u.elapsed := by
  unfold elapsed decimalValue
  positivity

theorem isToken_decimal : IsToken Str.isSpace (decimal u.seconds u.hundredths) := by
  obtain ⟨c, s, -, hdecimal⟩ := PyNumber.decimal_eq_cons u.seconds u.hundredths
  constructor
  · rw [hdecimal]
    exact List.cons_ne_nil _ _
  · exact PyNumber.not_of_mem_decimal u.hundredths_lt
      (fun _ hc => PyNumber.not_isSpace_of_isDigit hc) (by decide)

theorem isToken_memory : IsToken Str.isSpace (Nat.toDigits 10 u.memory_kb) :=
  ⟨Nat.toDigits_ne_nil, fun c hc =>
    PyNumber.not_isSpace_of_isDigit (PyNumber.isDigit_of_mem_toDigits u.memory_kb c hc)⟩

/-- The line has two fields. -/
theorem words_line :
    Str.words u.line = [decimal u.seconds u.hundredths, Nat.toDigits 10 u.memory_kb] := by
  have hspace : Str.isSpace ' ' = true := by decide
  calc Str.words u.line
      = tokens Str.isSpace (decimal u.seconds u.hundredths) ++
          tokens Str.isSpace (Nat.toDigits 10 u.memory_kb) := tokens_append_cons _ _ hspace
    _ = [decimal u.seconds u.hundredths, Nat.toDigits 10 u.memory_kb] := by
        rw [tokens_of_isToken u.isToken_decimal, tokens_of_isToken u.isToken_memory,
          List.singleton_append]

theorem newline_not_mem_line : '\n' ∉ u.line := by
  intro h
  rcases List.mem_append.mp h with h | h
  · exact absurd (u.isToken_decimal.2 '\n' h) (by decide)
  · rcases List.mem_cons.mp h with h | h
    · exact absurd h (by decide)
    · exact absurd (u.isToken_memory.2 '\n' h) (by decide)

variable {u} {stderr_output : Str} {time_limit_sec memory_limit_kb : Int}

theorem ends_alone (h : stderr_output = u.line ++ ['\n']) : u.Ends stderr_output :=
  ⟨[], by simp, h⟩

theorem Ends.lastLine (h : u.Ends stderr_output) : LastLine '\n' stderr_output u.line := by
  obtain ⟨before, hbefore, rfl⟩ := h
  cases hlast : before.getLast? with
  | none =>
      rw [List.getLast?_eq_none_iff.mp hlast]
      exact .only u.newline_not_mem_line (by simp)
  | some c =>
      obtain rfl := hbefore c hlast
      obtain ⟨lines, rfl⟩ := List.getLast?_eq_some_iff.mp hlast
      rw [List.append_assoc, List.singleton_append]
      exact .after u.newline_not_mem_line (by simp)

/-- What is read from the line. -/
theorem Ends.measurements_eq_ok (h : u.Ends stderr_output) {m : Int × Int} :
    measurements stderr_output time_limit_sec memory_limit_kb = .ok m ↔
      u.Printable ∧
        m = (min ⌊rounded u.elapsed⌋ (time_limit_sec * 1000),
          min (u.memory_kb : Int) memory_limit_kb) := by
  have hfloat : PyNumber.float (decimal u.seconds u.hundredths) = some (nearest u.elapsed) :=
    PyNumber.float_decimal u.hundredths_lt
  have hint := PyNumber.int_toDigits u.memory_kb
  have htrunc (x : ℚ) (hx : nearest u.elapsed = .finite x) :
      x.num.tdiv x.den = ⌊rounded u.elapsed⌋ := by
    obtain rfl := PyNumber.nearest_eq_finite hx
    exact PyNumber.tdiv_eq_floor (PyNumber.rounded_nonneg u.elapsed_nonneg)
  rw [JudgeWorker.measurements_eq_ok]
  constructor
  · rintro ⟨line, time, memory, rest, hline, hwords, x, n, hx, hn, rfl⟩
    obtain rfl := hline.eq h.lastLine
    rw [words_line, List.cons.injEq, List.cons.injEq] at hwords
    obtain ⟨rfl, rfl, -⟩ := hwords
    rw [hfloat, Option.some.injEq] at hx
    rw [hint, Option.ite_none_right_eq_some, Option.some.injEq] at hn
    obtain ⟨hdigits, rfl⟩ := hn
    exact ⟨⟨by simp [hx], hdigits⟩, by rw [htrunc x hx]⟩
  · rintro ⟨⟨hfinite, hdigits⟩, rfl⟩
    obtain ⟨x, hx⟩ : ∃ x, nearest u.elapsed = .finite x := by
      rw [PyNumber.nearest_eq] at hfinite ⊢
      split at hfinite
      · exact ⟨_, if_pos ‹_›⟩
      · exact absurd rfl hfinite
    refine ⟨u.line, _, _, [], h.lastLine, u.words_line, x, u.memory_kb, ?_, ?_, ?_⟩
    · rw [hfloat, hx]
    · rw [hint, if_pos hdigits]
    · rw [htrunc x hx]

/-! ## Units -/

/-- The float that is read reaches the limit in milliseconds. -/
def Capped (u : Usage) (time_limit_sec : Int) : Prop :=
  ((1000 * time_limit_sec : Int) : ℚ) ≤ rounded u.elapsed

/-- For limits that a column can hold, the whole seconds decide. -/
theorem capped_iff (h : time_limit_sec ≤ 2 ^ 31) :
    u.Capped time_limit_sec ↔ 1000 * time_limit_sec ≤ u.seconds := by
  have hhundredths : ((u.hundredths : ℚ)) ≤ 99 := by
    have := u.hundredths_lt
    exact_mod_cast (show u.hundredths ≤ 99 by omega)
  have hpos : (0 : ℚ) ≤ u.hundredths := by positivity
  apply PyNumber.intCast_le_rounded_iff
  · omega
  · rw [elapsed, decimalValue]
    push_cast
    linarith
  · rw [elapsed, decimalValue]
    push_cast
    linarith

def milliseconds (u : Usage) : Int := 1000 * u.seconds + 10 * u.hundredths

theorem milliseconds_eq : (u.milliseconds : ℚ) = 1000 * u.elapsed := by
  rw [milliseconds, elapsed, decimalValue]
  push_cast
  ring

/-- A positive time in seconds is less than in milliseconds, also after rounding. -/
theorem floor_rounded_lt (h : 0 < u.milliseconds) : ⌊rounded u.elapsed⌋ < u.milliseconds := by
  have hms : (10 : Int) ≤ u.milliseconds := by
    unfold milliseconds at h ⊢
    omega
  have hms' : (10 : ℚ) ≤ 1000 * u.elapsed := by
    rw [← milliseconds_eq]
    exact_mod_cast hms
  have hround := PyNumber.rounded_le_two_mul (q := u.elapsed) (by linarith)
  have hlt : (⌊rounded u.elapsed⌋ : ℚ) < u.milliseconds := by
    calc (⌊rounded u.elapsed⌋ : ℚ) ≤ rounded u.elapsed := Int.floor_le _
      _ ≤ 2 * u.elapsed := hround
      _ < 1000 * u.elapsed := by linarith
      _ = u.milliseconds := milliseconds_eq.symm
  exact_mod_cast hlt

/-- The truncated seconds, capped in milliseconds, are the capped milliseconds only if both
are zero or both are cut off. -/
theorem min_eq_iff :
    min ⌊rounded u.elapsed⌋ (time_limit_sec * 1000) =
        min u.milliseconds (1000 * time_limit_sec) ↔
      (u.seconds = 0 ∧ u.hundredths = 0) ∨ u.Capped time_limit_sec := by
  have hcapped : u.Capped time_limit_sec ↔ 1000 * time_limit_sec ≤ ⌊rounded u.elapsed⌋ :=
    Int.le_floor.symm
  rw [hcapped]
  rcases (show 0 ≤ u.milliseconds by unfold milliseconds; omega).eq_or_lt with hzero | hpos
  · have helapsed : u.elapsed = 0 := by
      have h := milliseconds_eq (u := u)
      rw [← hzero, Int.cast_zero] at h
      linarith
    have hnone : u.seconds = 0 ∧ u.hundredths = 0 := by
      unfold milliseconds at hzero
      omega
    rw [helapsed, PyNumber.rounded_zero, Int.floor_zero, ← hzero]
    simp only [hnone, and_self, true_or, iff_true]
    omega
  · have hlt := floor_rounded_lt hpos
    have hsome : ¬ (u.seconds = 0 ∧ u.hundredths = 0) := by
      unfold milliseconds at hpos
      omega
    omega

end Usage

section

variable {env : Environment} {idx : Nat} {u : Usage}

/-- **Resource usage is reported in milliseconds** exactly if no time has passed or the
seconds reach the limit in milliseconds. -/
theorem resource_usage_iff (h : DockerSucceeds env idx)
    (hends : u.Ends (env.execution idx).stderr) (container : Str) (language : Language)
    (executable_path input_data expected_output : Str) (time_limit_sec memory_limit_kb : Int) :
    ((∃ r, (runProgram env idx container language executable_path input_data expected_output
        time_limit_sec memory_limit_kb).result = .ok r ∧
        r.runtime_ms =
          min (1000 * (u.seconds : Int) + 10 * u.hundredths) (1000 * time_limit_sec) ∧
        r.memory_kb = min (u.memory_kb : Int) memory_limit_kb) ↔
      u.Printable ∧ ((u.seconds = 0 ∧ u.hundredths = 0) ∨ u.Capped time_limit_sec)) ∧
    (time_limit_sec ≤ 2 ^ 31 →
      (u.Capped time_limit_sec ↔ 1000 * time_limit_sec ≤ u.seconds)) := by
  refine ⟨?_, Usage.capped_iff⟩
  rw [← Usage.min_eq_iff]
  simp only [result_runProgram h, runResult_eq_ok_iff, hends.measurements_eq_ok]
  constructor
  · rintro ⟨r, ⟨m, ⟨hprintable, rfl⟩, rfl⟩, htime, -⟩
    exact ⟨hprintable, htime⟩
  · rintro ⟨hprintable, htime⟩
    exact ⟨_, ⟨_, ⟨hprintable, rfl⟩, rfl⟩, htime, rfl⟩

/-- One and a half seconds are reported as one millisecond. -/
theorem not_resource_usage :
    ¬ ∀ env idx (u : Usage), DockerSucceeds env idx → u.Ends (env.execution idx).stderr →
      ∀ container language executable_path input_data expected_output time_limit_sec
        memory_limit_kb, ∃ r, (runProgram env idx container language executable_path input_data
          expected_output time_limit_sec memory_limit_kb).result = .ok r ∧
        r.runtime_ms =
          min (1000 * (u.seconds : Int) + 10 * u.hundredths) (1000 * time_limit_sec) ∧
        r.memory_kb = min (u.memory_kb : Int) memory_limit_kb := by
  intro hall
  let session : ExecSession := ⟨[(2, Utf8.encode "1.50 9000\n".toList)], some 0⟩
  obtain ⟨r, hr, htime, -⟩ := hall (leaving session) 1 ⟨1, 50, by decide, 9000⟩
    (dockerSucceeds_leaving session 1) (Usage.ends_alone (by decide +kernel)) [] .PYTHON [] [] [] 2
    262144
  rw [result_runProgram (dockerSucceeds_leaving _ _), runResult_eq_ok_iff] at hr
  obtain ⟨m, hm, rfl⟩ := hr
  have hread : measurements session.stderr 2 262144 = .ok (1, 9000) := by decide +kernel
  obtain rfl := Except.ok.inj (hm.symm.trans hread)
  exact absurd htime (by decide)

theorem printable_zero : (Usage.mk 0 0 (by decide) 9000).Printable := by
  constructor
  · rw [PyNumber.nearest_eq]
    decide +kernel
  · decide +kernel

theorem resource_usage_zero :
    ∃ r, (runProgram (leaving ⟨[(2, Utf8.encode "0.00 9000\n".toList)], some 0⟩) 1 ['b'] .PYTHON
        "/workspace/main.py".toList [] [] 1 262144).result = .ok r ∧
      r.runtime_ms = min (1000 * ((0 : Nat) : Int) + 10 * (0 : Nat)) (1000 * 1) ∧
      r.memory_kb = min ((9000 : Nat) : Int) 262144 := by
  have hiff := (resource_usage_iff (u := ⟨0, 0, by decide, 9000⟩) (dockerSucceeds_leaving
    ⟨[(2, Utf8.encode "0.00 9000\n".toList)], some 0⟩ 1) (Usage.ends_alone (by decide +kernel))
    ['b'] .PYTHON "/workspace/main.py".toList [] [] 1 262144).1
  exact hiff.mpr ⟨printable_zero, .inl ⟨rfl, rfl⟩⟩

end

end ByteBattles.Judge.JudgeWorker
