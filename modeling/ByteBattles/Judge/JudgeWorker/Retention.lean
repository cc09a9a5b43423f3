import ByteBattles.Judge.JudgeWorker.Exceptions
import ByteBattles.Judge.JudgeWorker.Trace
import ByteBattles.Judge.JudgeWorker.Worker

/-!
# What the exception handling keeps

A popped submission is judged or put back unless the exception that ends
`process_submission` is a `ValueError`, which the handler takes for a missing row, or
a `KeyboardInterrupt`.
-/

namespace ByteBattles.Judge.JudgeWorker

open ByteBattles.Lib

/-! ## Calls that change neither the rows nor the job list -/

def Call.quiet : Call → Bool
  | .brpop => false
  | .lpush _ => false
  | .commit _ (some _) => false
  | _ => true

structure World.Same (w t : World) : Prop where
  db : t.db = w.db
  jobs : t.jobs = w.jobs

theorem World.Same.trans {u v w : World} (h₁ : u.Same v) (h₂ : v.Same w) : u.Same w :=
  ⟨h₂.db.trans h₁.db, h₂.jobs.trans h₁.jobs⟩

theorem Call.effect_same {c : Call} (h : c.quiet = true) (start : ℚ) (w : World) :
    w.Same (c.effect start w) := by
  cases c with
  | brpop => cases h
  | lpush => cases h
  | commit db update =>
      cases update with
      | none => exact ⟨rfl, rfl⟩
      | some _ => cases h
  | _ => exact ⟨rfl, rfl⟩

variable {cfg : Config} {env : Environment} {w : World}

/-- The call is quiet, or it raises. -/
def Environment.Leaves (env : Environment) (c : Call) : Prop :=
  c.quiet = true ∨ env.raises c.step ≠ none

theorem Environment.after_same {c : Call} (h : env.Leaves c) (w : World) :
    w.Same (env.after w c) := by
  unfold Environment.after
  cases hc : env.raises c.step with
  | none =>
      obtain hq | hr := h
      · have := Call.effect_same hq w.now (w.wait (env.elapsed c.step))
        exact ⟨this.db, this.jobs⟩
      · exact absurd hc hr
  | some e => exact ⟨rfl, rfl⟩

theorem Environment.afterAll_same {calls : List Call} (h : ∀ c ∈ calls, env.Leaves c)
    (w : World) : w.Same (env.afterAll w calls) := by
  induction calls generalizing w with
  | nil => exact ⟨rfl, rfl⟩
  | cons c calls ih =>
      have hc := env.after_same (h c (List.mem_cons_self ..)) w
      exact hc.trans (ih (fun c' hc' => h c' (List.mem_cons_of_mem _ hc')) _)

abbrev Quiet {α : Type} (m : Run α) : Prop := m.Makes fun c => c.quiet = true

theorem quiet_call {c : Call} (h : c.quiet = true) : Quiet (env.call c) := Traced.makes_call h

theorem Call.quiet_of_inLoop {c : Call} (h : c.step.inLoop = true) : c.quiet = true := by
  cases c <;> first | rfl | cases h

theorem quiet_judge (submission_id : Int) (job : Job) (container : Str) :
    Quiet (judge cfg env submission_id job container) := by
  refine (quiet_call rfl).bind fun _ _ => (quiet_call rfl).bind fun _ _ =>
    (makes_compile fun _ => rfl).bind fun result _ => ?_
  split
  · exact (makes_judgeTestcases fun _ => Call.quiet_of_inLoop).bind fun _ _ =>
      Traced.makes_ofExcept _
  · exact Traced.makes_pure _

theorem quiet_judgeSubmission (db : Database) (submission_id : Int) :
    Quiet (judgeSubmission cfg env db submission_id) := by
  have hread : Quiet (session env .submission (readJob env db submission_id) fun _ => none) :=
    makes_session (makes_readJob fun _ => rfl) (fun _ _ => rfl) rfl rfl
  refine hread.bind fun job _ => (quiet_call rfl).bind fun _ _ => ?_
  split
  · exact Traced.makes_raise _
  · exact (quiet_call rfl).bind fun _ _ => makes_getContainer rfl (quiet_judge _ _ _) rfl

/-! ## The result write -/

section

variable {db : Database} {submission_id : Int} {submission : Submission} {problem : Problem}
  {result : SubmissionResult}

theorem raised_updateSubmissionResult :
    (updateSubmissionResult env db submission_id result).raised =
      unwound env .result (writeRaises env) := by
  rw [updateSubmissionResult, raised_session]
  simp [writeRaises, Call.step]

/-- A write that raises leaves the row as it was. -/
theorem leaves_updateSubmissionResult (h : writeRaises env ≠ none) :
    (updateSubmissionResult env db submission_id result).Makes env.Leaves := by
  refine makes_session ((makes_call (.inl rfl)).bind fun _ _ => Traced.makes_pure _)
    (fun found hfound => .inr ?_) (.inl rfl) (.inl rfl)
  -- the query has returned, so it is the commit that raises
  have hquery : env.raises (.query .result .submissions) = none := by
    have := Traced.raised_of_ok hfound
    simpa [Call.step] using this
  simpa [writeRaises, hquery, Call.step] using h

theorem calls_updateSubmissionResult (h : writeRaises env = none)
    (hs : db.submissions submission_id = some submission) :
    (updateSubmissionResult env db submission_id result).calls =
      [.query .result .submissions, .commit .result (some (submission_id, result)),
        .close .result] := by
  obtain ⟨hquery, hcommit⟩ := Option.or_eq_none_iff.mp h
  have hfound : (do
      env.call (.query .result .submissions)
      return (db.submissions submission_id).isSome : Run Bool) =
      ⟨[.query .result .submissions], .ok true⟩ := by
    rw [Environment.call_bind hquery, hs]
    rfl
  rw [updateSubmissionResult, hfound, session, Traced.calls_ensuring, Traced.bind_ok rfl,
    Environment.call_bind hcommit]
  rfl

end

/-! ## The `try` block -/

section

variable (env)

/-- The exception that keeps the verdict from being stored. -/
def raisedBeforeStore (job : Job) : Option Exc :=
  (env.raises .setSubmission).or
    ((judgeSubmissionRaises env job).or
      (if writeRaises env = none then none else unwound env .result (writeRaises env)))

/-- The exception after the verdict has been stored. -/
def raisedAfterStore : Option Exc :=
  (env.raises (.close .result)).or (env.raises .deleteSubmission)

end

section

variable {db : Database} {submission_id : Int} {submission : Submission} {problem : Problem}

theorem raised_processSubmission (hs : db.submissions submission_id = some submission)
    (hp : db.problems submission.problem_id = some problem) :
    (processSubmission cfg env db submission_id).raised =
      (judgeSubmissionRaises env (db.job submission problem)).or
        (unwound env .result (writeRaises env)) := by
  rw [processSubmission, Traced.raised_bind fun result _ => ?_, raised_judgeSubmission hs hp]
  rw [Traced.raised_bind fun _ _ => Traced.raised_pure result, raised_updateSubmissionResult,
    Option.or_none]

theorem raised_work (hs : db.submissions submission_id = some submission)
    (hp : db.problems submission.problem_id = some problem) :
    (work cfg env db submission_id).raised =
      (raisedBeforeStore env (db.job submission problem)).or (raisedAfterStore env) := by
  have hraised : (work cfg env db submission_id).raised =
      (env.raises .setSubmission).or
        (((judgeSubmissionRaises env (db.job submission problem)).or
          (unwound env .result (writeRaises env))).or (env.raises .deleteSubmission)) := by
    rw [work, Environment.raised_call_bind, Traced.raised_bind fun result _ => ?_,
      raised_processSubmission hs hp]
    · rfl
    · rw [Environment.raised_call_bind, Traced.raised_pure, Option.or_none]
      rfl
  rw [hraised, raisedBeforeStore, raisedAfterStore]
  cases hw : writeRaises env with
  | none => simp only [unwound_none, if_true, Option.or_none, Option.or_assoc]
  | some e =>
      obtain ⟨e', he'⟩ := Option.ne_none_iff_exists'.mp (unwound_some env .result e)
      simp [he']

/-- A submission whose verdict is not stored leaves rows and job list as they were. -/
theorem leaves_work (hs : db.submissions submission_id = some submission)
    (hp : db.problems submission.problem_id = some problem)
    (h : raisedBeforeStore env (db.job submission problem) ≠ none) :
    (work cfg env db submission_id).Makes env.Leaves := by
  have hleaves {α : Type} {m : Run α} (hm : Quiet m) : m.Makes env.Leaves :=
    fun c hc => .inl (hm c hc)
  refine (hleaves (quiet_call rfl)).bind fun _ hset => Traced.Makes.bind ?_ fun _ _ =>
    (hleaves (quiet_call rfl)).bind fun _ _ => Traced.makes_pure _
  refine (hleaves (quiet_judgeSubmission db submission_id)).bind fun result hresult =>
    (leaves_updateSubmissionResult ?_).bind fun _ _ => Traced.makes_pure _
  -- neither the key nor the judging has raised, so the write does
  have hset := Traced.raised_of_ok hset
  have hjudge := Traced.raised_of_ok hresult
  rw [Environment.raised_call] at hset
  rw [raised_judgeSubmission hs hp] at hjudge
  intro hwrite
  exact h (by rw [raisedBeforeStore, show env.raises .setSubmission = none from hset, hjudge,
    if_pos hwrite, Option.or_none, Option.or_none])

/-- If nothing raises before the verdict is stored, it is committed. -/
theorem calls_work (hs : db.submissions submission_id = some submission)
    (hp : db.problems submission.problem_id = some problem)
    (h : raisedBeforeStore env (db.job submission problem) = none) :
    ∃ result pre post, result.verdict ≠ .PENDING ∧ (∀ c ∈ pre, c.quiet = true) ∧
      (∀ c ∈ post, c.quiet = true) ∧
      (work cfg env db submission_id).calls =
        pre ++ .commit .result (some (submission_id, result)) :: post ∧
      env.raises (.commit .result) = none := by
  obtain ⟨hset, hrest⟩ := Option.or_eq_none_iff.mp h
  obtain ⟨hjudge, hwrite⟩ := Option.or_eq_none_iff.mp hrest
  have hwrite : writeRaises env = none := by
    by_contra hne
    rw [if_neg hne] at hwrite
    obtain ⟨e, he⟩ := Option.ne_none_iff_exists'.mp hne
    exact unwound_some env .result e (he ▸ hwrite)
  have hjudge : (judgeSubmission cfg env db submission_id).raised = none := by
    rw [raised_judgeSubmission hs hp, hjudge]
  obtain ⟨result, hresult⟩ := raisedBy_eq_none hjudge
  obtain ⟨tail, hcalls, htail⟩ := Traced.exists_calls_bind
    (m := updateSubmissionResult env db submission_id result)
    (f := fun _ => (pure result : Run SubmissionResult)) (p := fun c => c.quiet = true)
    fun _ => Traced.makes_pure _
  obtain ⟨tail', hcalls', htail'⟩ := Traced.exists_calls_bind
    (m := processSubmission cfg env db submission_id)
    (f := fun result => do
      env.call (.deleteSubmission submission_id)
      return Outcome.processed result) (p := fun c => c.quiet = true)
    fun _ => (quiet_call rfl).bind fun _ _ => Traced.makes_pure _
  refine ⟨result,
    .setSubmission submission_id :: ((judgeSubmission cfg env db submission_id).calls ++
      [.query .result .submissions]),
    .close .result :: (tail ++ tail'), returns_judgeSubmission result hresult, ?_, ?_, ?_,
    (Option.or_eq_none_iff.mp hwrite).2⟩
  · intro c hc
    simp only [List.mem_cons, List.mem_append, List.not_mem_nil, or_false] at hc
    rcases hc with rfl | hc | rfl
    · rfl
    · exact quiet_judgeSubmission db submission_id c hc
    · rfl
  · intro c hc
    simp only [List.mem_cons, List.mem_append] at hc
    rcases hc with rfl | hc | hc
    · rfl
    · exact htail c hc
    · exact htail' c hc
  · rw [work, Environment.call_bind hset, hcalls', processSubmission, Traced.bind_ok hresult,
      hcalls, calls_updateSubmissionResult hwrite hs]
    simp

end

/-! ## The iteration -/

def World.Judged (w : World) (submission_id : Int) : Prop :=
  ∃ row, w.db.submissions submission_id = some row ∧ row.result .verdict ≠ Verdict.PENDING

/-- The iteration leaves the submission judged or puts it back, and it does not log and drop. -/
def Kept (cfg : Config) (env : Environment) (w : World) (submission_id : Int) : Prop :=
  (∀ e, (w.run cfg env).result ≠ .ok (.dropped e)) ∧
    ((w.next cfg env).Judged submission_id ∨
      (w.next cfg env).jobs = Str.ofInt submission_id :: w.jobs.dropLast)

/-- No popped submission with both rows is ever dropped, if the handler can push. -/
def NoneDropped : Prop :=
  ∀ cfg env w submission_id submission problem, Takes env w submission_id submission problem →
    env.raises .lpush = none → Kept cfg env w submission_id

def Recognised (env : Environment) (job : Job) : Prop :=
  match raisedBeforeStore env job with
  | some e => e.isValueError = false ∧
      (e = .keyboardInterrupt → job.submission.result .verdict ≠ Verdict.PENDING)
  | none => ∀ e, raisedAfterStore env = some e → e.isValueError = false

section

variable {submission_id : Int} {submission : Submission} {problem : Problem}

theorem handle_keyboardInterrupt (env : Environment) (local? : Option Int) :
    handle env local? .keyboardInterrupt = pure .shutdown := if_pos rfl

theorem handle_valueError {e : Exc} (h : e.isValueError = true) (local? : Option Int) :
    handle env local? e = pure (.dropped e) := by
  have hne : e ≠ .keyboardInterrupt := by
    rintro rfl
    cases h
  unfold handle
  rw [if_neg hne, if_pos h]

theorem handle_failure {e : Exc} (hne : e ≠ .keyboardInterrupt) (h : e.isValueError = false)
    (submission_id : Int) :
    handle env (some submission_id) e = (do
      env.call (.lpush submission_id)
      env.call .sleep
      return .retried submission_id) := by
  unfold handle
  rw [if_neg hne, if_neg (by simp [h])]

def popped (env : Environment) (w : World) : World := env.afterAll w [.setHeartbeat, .brpop]

theorem popped_db (h : Takes env w submission_id submission problem) :
    (popped env w).db = w.db := by
  simp [popped, Environment.afterAll, Environment.after, Call.step, h.setHeartbeat, h.brpop,
    Call.effect, World.wait]

theorem popped_jobs (h : Takes env w submission_id submission problem) :
    (popped env w).jobs = w.jobs.dropLast := by
  simp [popped, Environment.afterAll, Environment.after, Call.step, h.setHeartbeat, h.brpop,
    Call.effect, World.wait]

theorem next_same (cfg : Config) (h : Takes env w submission_id submission problem) :
    (env.afterAll (popped env w) (handledWork cfg env w.db submission_id).calls).Same
      (w.next cfg env) := by
  rw [World.next, run_eq h]
  exact ⟨rfl, rfl⟩

theorem raised_work_of_takes (cfg : Config) (h : Takes env w submission_id submission problem) :
    (work cfg env w.db submission_id).raised =
      (raisedBeforeStore env (w.db.job submission problem)).or (raisedAfterStore env) :=
  raised_work h.submission_row h.problem_row

/-- What the handler does, after work that changes nothing. -/
theorem same_of_raisedBeforeStore (cfg : Config)
    (h : Takes env w submission_id submission problem)
    (hbefore : raisedBeforeStore env (w.db.job submission problem) ≠ none) :
    let t := env.afterAll (popped env w) (work cfg env w.db submission_id).calls
    t.db = w.db ∧ t.jobs = w.jobs.dropLast := by
  have hleaves : (work cfg env w.db submission_id).Makes env.Leaves :=
    leaves_work h.submission_row h.problem_row hbefore
  have hsame := Environment.afterAll_same hleaves (popped env w)
  exact ⟨hsame.db.trans (popped_db h), hsame.jobs.trans (popped_jobs h)⟩

theorem World.Judged.of_same {t u : World} (h : t.Judged submission_id) (hsame : t.Same u) :
    u.Judged submission_id := by
  obtain ⟨row, hrow, hverdict⟩ := h
  exact ⟨row, hsame.db ▸ hrow, hverdict⟩

/-- Work whose write returns leaves a verdict. -/
theorem judged_of_stored (cfg : Config) (h : Takes env w submission_id submission problem)
    (hbefore : raisedBeforeStore env (w.db.job submission problem) = none) :
    (env.afterAll (popped env w) (work cfg env w.db submission_id).calls).Judged
      submission_id := by
  obtain ⟨result, pre, post, hverdict, hpre, hpost, hcalls, hcommit⟩ :=
    @calls_work cfg env w.db submission_id submission problem h.submission_row h.problem_row
      hbefore
  rw [hcalls, Environment.afterAll_append]
  have hread : (popped env w).Same (env.afterAll (popped env w) pre) :=
    Environment.afterAll_same (fun c hc => .inl (hpre c hc)) _
  refine World.Judged.of_same ?_ (Environment.afterAll_same (fun c hc => .inl (hpost c hc)) _)
  have hrow : (env.afterAll (popped env w) pre).db.submissions submission_id =
      some submission := by
    rw [hread.db, popped_db h, h.submission_row]
  refine ⟨{ submission with result := assigned result }, ?_, hverdict⟩
  simp [Environment.after, Call.step, hcommit, Call.effect, Database.store, World.wait, hrow]

theorem after_lpush_db (t : World) : (env.after t (.lpush submission_id)).db = t.db := by
  unfold Environment.after
  cases env.raises (Call.step (.lpush submission_id)) <;> rfl

theorem quiet_pause : Quiet (do
    env.call .sleep
    return .retried submission_id : Run Outcome) :=
  (quiet_call rfl).bind fun _ _ => Traced.makes_pure _

theorem calls_handle_failure {e : Exc} (hlpush : env.raises .lpush = none)
    (hne : e ≠ .keyboardInterrupt) (hvalue : e.isValueError = false) :
    handle env (some submission_id) e =
      ⟨.lpush submission_id :: (do
          env.call .sleep
          return .retried submission_id : Run Outcome).calls,
        (do
          env.call .sleep
          return .retried submission_id : Run Outcome).result⟩ := by
  rw [handle_failure hne hvalue, Environment.call_bind hlpush]

/-- The handler writes no row. -/
theorem handle_db (hlpush : env.raises .lpush = none) (t : World) (e : Exc) :
    (env.afterAll t (handle env (some submission_id) e).calls).db = t.db := by
  by_cases hne : e = .keyboardInterrupt
  · subst hne
    rfl
  · cases hvalue : e.isValueError with
    | true =>
        rw [handle_valueError hvalue]
        rfl
    | false =>
        rw [calls_handle_failure hlpush hne hvalue]
        exact (Environment.afterAll_same (fun c hc => .inl (quiet_pause c hc)) _).db.trans
          (after_lpush_db t)

/-- The handler logs and drops exactly the `ValueError`s. -/
theorem handle_dropped_iff (hlpush : env.raises .lpush = none) (e : Exc) :
    (∃ e', (handle env (some submission_id) e).result = .ok (.dropped e')) ↔
      e.isValueError = true := by
  by_cases hne : e = .keyboardInterrupt
  · subst hne
    simp [handle_keyboardInterrupt, Exc.isValueError]
  · cases hvalue : e.isValueError with
    | true => simp [handle_valueError hvalue]
    | false =>
        rw [calls_handle_failure hlpush hne hvalue]
        refine iff_of_false ?_ (by simp)
        rintro ⟨e', he'⟩
        have hreturns : (do
            env.call .sleep
            return .retried submission_id : Run Outcome).Returns (· = .retried submission_id) :=
          Traced.returns_bind fun _ => Traced.returns_pure rfl
        cases hreturns _ he'

/-- The handler pushes the id exactly for the exceptions that it takes for failures. -/
theorem handle_jobs_iff (hlpush : env.raises .lpush = none) (t : World) (e : Exc) :
    (env.afterAll t (handle env (some submission_id) e).calls).jobs =
        Str.ofInt submission_id :: t.jobs ↔
      e.isValueError = false ∧ e ≠ .keyboardInterrupt := by
  have hlonger : t.jobs ≠ Str.ofInt submission_id :: t.jobs := by simp
  by_cases hne : e = .keyboardInterrupt
  · subst hne
    exact iff_of_false hlonger (by simp)
  · cases hvalue : e.isValueError with
    | true =>
        rw [handle_valueError hvalue]
        exact iff_of_false hlonger (by simp)
    | false =>
        rw [calls_handle_failure hlpush hne hvalue]
        refine iff_of_true ?_ ⟨rfl, hne⟩
        refine (Environment.afterAll_same (fun c hc => .inl (quiet_pause c hc)) _).jobs.trans ?_
        simp [Environment.after, Call.step, hlpush, Call.effect, World.wait]

theorem kept_iff_of_raisedBeforeStore (h : Takes env w submission_id submission problem)
    (hlpush : env.raises .lpush = none)
    {e : Exc} (he : raisedBeforeStore env (w.db.job submission problem) = some e) :
    Kept cfg env w submission_id ↔
      e.isValueError = false ∧
        (e = .keyboardInterrupt → submission.result .verdict ≠ Verdict.PENDING) := by
  have hbefore : raisedBeforeStore env (w.db.job submission problem) ≠ none := by simp [he]
  have hwork : (work cfg env w.db submission_id).result = .error e := by
    apply raisedBy_eq_some
    rw [← Traced.raised, raised_work_of_takes cfg h, he, Option.some_or]
  obtain ⟨hdb, hjobs⟩ := same_of_raisedBeforeStore cfg h hbefore
  have hnext := next_same cfg h
  rw [handledWork, Traced.catching_error _ hwork] at hnext
  rw [Environment.afterAll_append] at hnext
  have hjudged : (w.next cfg env).Judged submission_id ↔
      submission.result .verdict ≠ Verdict.PENDING := by
    rw [World.Judged, hnext.db, handle_db hlpush, hdb, h.submission_row]
    simp
  have hback : (w.next cfg env).jobs = Str.ofInt submission_id :: w.jobs.dropLast ↔
      e.isValueError = false ∧ e ≠ .keyboardInterrupt := by
    rw [hnext.jobs, ← handle_jobs_iff hlpush, hjobs]
  have hdropped : (∀ e', (w.run cfg env).result ≠ .ok (.dropped e')) ↔
      e.isValueError = false := by
    rw [run_eq h, handledWork, Traced.catching_error _ hwork, ← not_exists,
      handle_dropped_iff hlpush, Bool.not_eq_true]
  rw [Kept, hjudged, hback, hdropped]
  tauto

theorem kept_iff_of_stored (h : Takes env w submission_id submission problem)
    (hlpush : env.raises .lpush = none)
    (hbefore : raisedBeforeStore env (w.db.job submission problem) = none) :
    Kept cfg env w submission_id ↔
      ∀ e, raisedAfterStore env = some e → e.isValueError = false := by
  have hstored := judged_of_stored cfg h hbefore
  have hnext := next_same cfg h
  have hraised := raised_work_of_takes cfg h
  rw [hbefore, Option.none_or] at hraised
  cases hafter : raisedAfterStore env with
  | none =>
      rw [hafter] at hraised
      obtain ⟨outcome, houtcome⟩ := raisedBy_eq_none hraised
      rw [handledWork, Traced.catching_ok _ houtcome] at hnext
      refine iff_of_true ⟨?_, .inl (hstored.of_same hnext)⟩ (by simp)
      rw [run_eq h, handledWork, Traced.catching_ok _ houtcome]
      intro e he
      have hreturns : (work cfg env w.db submission_id).Returns fun o =>
          ∃ result, o = .processed result :=
        Traced.returns_bind fun _ => Traced.returns_bind fun result =>
          Traced.returns_bind fun _ => Traced.returns_pure ⟨result, rfl⟩
      obtain ⟨result, hresult⟩ := hreturns _ he
      cases hresult
  | some e =>
      rw [hafter] at hraised
      have hwork := raisedBy_eq_some hraised
      rw [handledWork, Traced.catching_error _ hwork, Environment.afterAll_append] at hnext
      have hjudged : (w.next cfg env).Judged submission_id := by
        obtain ⟨row, hrow, hverdict⟩ := hstored
        exact ⟨row, by rw [hnext.db, handle_db hlpush, hrow], hverdict⟩
      rw [Kept, run_eq h, handledWork, Traced.catching_error _ hwork, ← not_exists,
        handle_dropped_iff hlpush, Bool.not_eq_true]
      simp [hjudged]

end

/-! ## A dropped submission -/

def oneTestcase : Database where
  submissions := fun id => if id = 1 then some ⟨['p'], .PYTHON, ['c'], pendingRow⟩ else none
  problems := fun id => if id = ['p'] then some ⟨1, 64⟩ else none
  testcases := [⟨1, ['p'], ['i'], ['o']⟩]

def oneJob : World where
  now := 0
  heartbeat := none
  submission := none
  jobs := [['1']]
  db := oneTestcase
  events := []
  submission_id := none

def anyConfig : Config where
  ACQUIRE_TIMEOUT_SECONDS := 10
  WORKSPACE_DIR := ['/', 'w']

def storing (data : List Byte) : Environment where
  raises := fun _ => none
  elapsed := fun _ => 0
  elapsed_nonneg := elapsed_zero
  sandbox := some ['b']
  submissionFile := fun _ => []
  testcaseFile := fun _ => data
  compilation := ⟨some 0, none⟩
  execution := fun _ => ⟨[], some 0⟩

/-- A testcase file that is not UTF-8: the submission stays pending and is in no list. -/
theorem not_noneDropped :
    ¬ NoneDropped ∧
      (oneJob.run anyConfig (storing [0xFF])).result = .ok (.dropped .unicodeDecodeError) ∧
      (oneJob.next anyConfig (storing [0xFF])).jobs = [] ∧
      ¬ (oneJob.next anyConfig (storing [0xFF])).Judged 1 := by
  have hrun : (oneJob.run anyConfig (storing [0xFF])).result =
      .ok (.dropped .unicodeDecodeError) := by rfl
  refine ⟨fun hall => ?_, hrun, by rfl, ?_⟩
  · have htakes : Takes (storing [0xFF]) oneJob 1 ⟨['p'], .PYTHON, ['c'], pendingRow⟩ ⟨1, 64⟩ :=
      ⟨rfl, rfl, ⟨['1'], rfl, by decide⟩, rfl, rfl⟩
    exact (hall anyConfig _ _ _ _ _ htakes rfl).1 _ hrun
  · rintro ⟨row, hrow, hverdict⟩
    cases (show some _ = some row from hrow)
    exact hverdict rfl

/-! ## When nothing is dropped -/

theorem kept_iff_recognised {submission_id : Int} {submission : Submission} {problem : Problem}
    (h : Takes env w submission_id submission problem) (hlpush : env.raises .lpush = none) :
    Kept cfg env w submission_id ↔ Recognised env (w.db.job submission problem) := by
  unfold Recognised
  cases hbefore : raisedBeforeStore env (w.db.job submission problem) with
  | none => exact kept_iff_of_stored h hlpush hbefore
  | some e => exact kept_iff_of_raisedBeforeStore h hlpush hbefore

def unreachableStorage : Environment :=
  { storing [] with raises := fun c => if c = .readTestcaseInput 1 then some .other else none }

theorem kept_unreachableStorage : Kept anyConfig unreachableStorage oneJob 1 := by
  have htakes : Takes unreachableStorage oneJob 1 ⟨['p'], .PYTHON, ['c'], pendingRow⟩ ⟨1, 64⟩ :=
    ⟨rfl, rfl, ⟨['1'], rfl, by decide⟩, rfl, rfl⟩
  apply (kept_iff_recognised htakes rfl).mpr
  have hraised : raisedBeforeStore unreachableStorage
      (oneJob.db.job ⟨['p'], .PYTHON, ['c'], pendingRow⟩ ⟨1, 64⟩) = some .other := by rfl
  unfold Recognised
  rw [hraised]
  exact ⟨rfl, fun h => by cases h⟩

end ByteBattles.Judge.JudgeWorker
