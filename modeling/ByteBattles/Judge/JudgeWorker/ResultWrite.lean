import ByteBattles.Lib.ColumnUpdate
import ByteBattles.Judge.JudgeWorker.Types

/-!
# Concurrent result writes

`JudgePipeline._update_submission_result` loads the row of the submission and
assigns its five result columns; the commit in `Database.session` writes those
that changed.  Two attempts at one submission interleave at their loads and commits.
-/

namespace ByteBattles.Judge.JudgeWorker

open ByteBattles.Lib

/-- The columns of `Submission` that the result write assigns. -/
inductive Column
  | verdict
  | output
  | incorrect_testcase_key
  | walltime_ms
  | memory_kb
  deriving DecidableEq, Repr

def Column.all : List Column :=
  [.verdict, .output, .incorrect_testcase_key, .walltime_ms, .memory_kb]

/-- The values of a column; all but the verdict are nullable. -/
def Column.Value : Column → Type
  | .verdict => Verdict
  | .output => Option Str
  | .incorrect_testcase_key => Option Str
  | .walltime_ms => Option Int
  | .memory_kb => Option Int

instance : (c : Column) → DecidableEq c.Value
  | .verdict => inferInstanceAs (DecidableEq Verdict)
  | .output => inferInstanceAs (DecidableEq (Option Str))
  | .incorrect_testcase_key => inferInstanceAs (DecidableEq (Option Str))
  | .walltime_ms => inferInstanceAs (DecidableEq (Option Int))
  | .memory_kb => inferInstanceAs (DecidableEq (Option Int))

abbrev Row := (c : Column) → c.Value

def assigned (result : SubmissionResult) : Row
  | .verdict => result.verdict
  | .output => result.output
  | .incorrect_testcase_key => result.incorrect_testcase_key
  | .walltime_ms => result.runtime_ms
  | .memory_kb => result.memory_kb

def attempts (r₁ r₂ : SubmissionResult) : Bool → SubmissionResult
  | false => r₁
  | true => r₂

/-- The row after a schedule of the loads and commits of two attempts, if the
schedule is possible. -/
def outcome (prior : Row) (r₁ r₂ : SubmissionResult) (schedule : List ColumnUpdate.Op) :
    Option (ColumnUpdate.State Column.Value) :=
  ColumnUpdate.exec (fun i => assigned (attempts r₁ r₂ i)) (ColumnUpdate.start prior) schedule

/-- The five columns are together those of one attempt. -/
def Unmixed (r₁ r₂ : SubmissionResult) (row : Row) : Prop :=
  row = assigned r₁ ∨ row = assigned r₂

/-- Two complete writes of `r₁` and `r₂` never leave a mixture. -/
def ResultsDoNotMix : Prop :=
  ∀ prior r₁ r₂ schedule t, outcome prior r₁ r₂ schedule = some t → t.Finished →
    Unmixed r₁ r₂ t.row

theorem unmixed_iff_exists (r₁ r₂ : SubmissionResult) (row : Row) :
    Unmixed r₁ r₂ row ↔ ∃ i, row = assigned (attempts r₁ r₂ i) := by
  simp [Unmixed, attempts]

/-! ## A mixed row -/

def pendingRow : Row
  | .verdict => Verdict.PENDING
  | .output => none
  | .incorrect_testcase_key => none
  | .walltime_ms => none
  | .memory_kb => none

def acceptedResult : SubmissionResult where
  submission_id := 7
  verdict := .ACCEPTED
  runtime_ms := some 0
  memory_kb := some 9000

def wrongAnswerResult : SubmissionResult where
  submission_id := 7
  verdict := .WRONG_ANSWER
  output := some ['3']
  incorrect_testcase_idx := some 1
  incorrect_testcase_key := some ['p', '/', 'u', '-', '1', '.', 'i', 'n']
  runtime_ms := some 0
  memory_kb := some 8500

/-- The first attempt finds the submission correct and the retry does not; both
load the pending row and the first one commits last. -/
def mixedSchedule : List ColumnUpdate.Op :=
  [.load false, .load true, .commit true, .commit false]

theorem not_resultsDoNotMix :
    ¬ ResultsDoNotMix ∧
      ∃ t, outcome pendingRow acceptedResult wrongAnswerResult mixedSchedule = some t ∧
        t.Finished ∧ t.row .verdict = Verdict.ACCEPTED ∧
        t.row .incorrect_testcase_key = wrongAnswerResult.incorrect_testcase_key := by
  have hrun : outcome pendingRow acceptedResult wrongAnswerResult mixedSchedule =
      some ⟨ColumnUpdate.update pendingRow (assigned acceptedResult) (assigned wrongAnswerResult),
        ColumnUpdate.pair true .done .done⟩ :=
    ColumnUpdate.exec_overlapping pendingRow true false
  have hdone : ColumnUpdate.State.Finished (V := Column.Value)
      ⟨ColumnUpdate.update pendingRow (assigned acceptedResult) (assigned wrongAnswerResult),
        ColumnUpdate.pair true .done .done⟩ := by
    intro i
    simp [ColumnUpdate.pair]
  refine ⟨fun hall => ?_, _, hrun, hdone, rfl, rfl⟩
  rcases hall _ _ _ _ _ hrun hdone with h | h
  · have := congrFun h .incorrect_testcase_key
    revert this
    decide
  · have := congrFun h .verdict
    revert this
    decide

/-! ## When the results do not mix -/

/-- One attempt loads after the other has committed, or the attempt that commits
last changes every column that the other one changes, or changes columns only to
the values that the other one has written. -/
def Separated (prior : Row) (r₁ r₂ : SubmissionResult) (schedule : List ColumnUpdate.Op) : Prop :=
  (∃ i, schedule = ColumnUpdate.serial i) ∨
    ∃ i j, schedule = ColumnUpdate.overlapping i j ∧
      ColumnUpdate.Compatible prior (assigned (attempts r₁ r₂ i)) (assigned (attempts r₁ r₂ !i))

theorem unmixed_iff_separated {prior : Row} {r₁ r₂ : SubmissionResult}
    {schedule : List ColumnUpdate.Op} {t : ColumnUpdate.State Column.Value}
    (h : outcome prior r₁ r₂ schedule = some t) (hdone : t.Finished) :
    Unmixed r₁ r₂ t.row ↔ Separated prior r₁ r₂ schedule := by
  rw [unmixed_iff_exists]
  exact ColumnUpdate.row_eq_iff h hdone

/-- With the commits the other way round the row is that of the retry, which
changes every column. -/
theorem unmixed_retry_last :
    ∃ t, outcome pendingRow acceptedResult wrongAnswerResult
        [.load false, .load true, .commit false, .commit true] = some t ∧
      Unmixed acceptedResult wrongAnswerResult t.row := by
  have hrun : outcome pendingRow acceptedResult wrongAnswerResult
      (ColumnUpdate.overlapping false false) =
      some ⟨ColumnUpdate.update pendingRow (assigned wrongAnswerResult) (assigned acceptedResult),
        ColumnUpdate.pair false .done .done⟩ :=
    ColumnUpdate.exec_overlapping pendingRow false false
  refine ⟨_, hrun, (unmixed_iff_separated hrun ?_).mpr (.inr ⟨false, false, rfl, .inl ?_⟩)⟩
  · intro i
    simp [ColumnUpdate.pair]
  · intro c
    cases c <;> decide

end ByteBattles.Judge.JudgeWorker
